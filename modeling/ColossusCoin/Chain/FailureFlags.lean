import ColossusCoin.Chain.TreeInvariant
import ColossusCoin.Library.System

/-!
# Failure flags and candidates

Every operation on the block index keeps the failure flags backed by a block that failed
and keeps the usable entries among the candidates, `ReconsiderBlock` excepted: it clears
the flags of the ancestors of a block, but neither the flags that their other
descendants carry because of them nor the gap that they left among the candidates.
-/

namespace ColossusCoin

namespace BlockTree

/-- The entry or one of its ancestors failed. -/
def HasFailedAncestor (tree : BlockTree) (pindex : BlockPath) : Prop :=
  ∃ ancestor ∈ tree.mapBlockIndex,
    ancestor <:+ pindex ∧ (tree.entry ancestor).nStatus.failedValid = true

/-- What `CheckBlockIndex` asserts about failure flags and candidates. -/
structure FlagsConsistent (tree : BlockTree) : Prop where
  failedChild : ∀ pindex ∈ tree.mapBlockIndex,
    (tree.entry pindex).nStatus.failedChild = true → tree.HasFailedAncestor pindex
  candidate : ∀ pindex ∈ tree.mapBlockIndex,
    ¬ tree.HasFailedAncestor pindex → (tree.entry pindex).nChainTx ≠ 0 →
      tree.valueComp pindex tree.chainActive = false →
        pindex ∈ tree.setBlockIndexCandidates

/-- Flags come from a failed ancestor, and the active chain carries none. -/
structure FlagsBacked (tree : BlockTree) : Prop extends tree.LinkedTree where
  backed : ∀ {pindex}, pindex ∈ tree.mapBlockIndex →
    (tree.entry pindex).nStatus.failedChild = true → tree.HasFailedAncestor pindex
  activeValid : ∀ {ancestor}, ancestor ∈ tree.mapBlockIndex →
    ancestor <:+ tree.chainActive → (tree.entry ancestor).nStatus.failed = false

/-- The invariant of the index: candidates are judged by an entry's own flags only, since
descendants of a failed block are marked late. -/
structure IndexInvariant (tree : BlockTree) : Prop
    extends tree.WellFormed, tree.FlagsBacked where
  ready : ∀ {pindex}, pindex ∈ tree.mapBlockIndex →
    (tree.entry pindex).nStatus.failed = false → (tree.entry pindex).nChainTx ≠ 0 →
      tree.workKey tree.chainActive ≤ tree.workKey pindex →
        pindex ∈ tree.setBlockIndexCandidates

variable {tree next : BlockTree}

theorem HasFailedAncestor.mono
    (failed : tree.HasFailedAncestor pindex)
    (keepsIndex : ∀ {other}, other ∈ tree.mapBlockIndex → other ∈ next.mapBlockIndex)
    (keepsFailed : ∀ {other}, other ∈ tree.mapBlockIndex →
      (tree.entry other).nStatus.failedValid = true →
        (next.entry other).nStatus.failedValid = true) :
    next.HasFailedAncestor pindex := by
  obtain ⟨ancestor, known, isAncestor, ancestorFailed⟩ := failed
  exact ⟨ancestor, keepsIndex known, isAncestor, keepsFailed known ancestorFailed⟩

theorem HasFailedAncestor.of_ancestor
    (failed : tree.HasFailedAncestor ancestor)
    (isAncestor : ancestor <:+ pindex) :
    tree.HasFailedAncestor pindex := by
  obtain ⟨first, known, isFirst, firstFailed⟩ := failed
  exact ⟨first, known, isFirst.trans isAncestor, firstFailed⟩

theorem sameLinks_mark
    (tree : BlockTree)
    (pindex : BlockPath)
    (sameData : ∀ nStatus, (change nStatus).haveData = nStatus.haveData)
    (raised : ∀ nStatus, nStatus.validity ≤ (change nStatus).validity) :
    SameLinks tree ((tree.modifyStatus pindex change).eraseCandidate pindex) :=
  (sameLinks_modifyStatus tree pindex sameData raised).trans (sameLinks_eraseCandidate _ pindex)

theorem HasFailedAncestor.modifyStatus
    (failed : tree.HasFailedAncestor other)
    (keepsFailed : ∀ nStatus, nStatus.failedValid = true →
      (change nStatus).failedValid = true) :
    (tree.modifyStatus pindex change).HasFailedAncestor other := by
  refine failed.mono (fun known => known) ?_
  intro ancestor _ failedValid
  rw [nStatus_modifyStatus]
  split_ifs with same
  · exact keepsFailed _ (same ▸ failedValid)
  · exact failedValid

namespace FlagsBacked

theorem hasFailedAncestor_of_failed
    (flagsBacked : tree.FlagsBacked)
    (known : pindex ∈ tree.mapBlockIndex)
    (failed : (tree.entry pindex).nStatus.failed = true) :
    tree.HasFailedAncestor pindex := by
  rcases Bool.or_eq_true_iff.mp failed with failedValid | failedChild
  · exact ⟨pindex, known, List.suffix_refl pindex, failedValid⟩
  · exact flagsBacked.backed known failedChild

/-- Flagging an entry off the active chain and erasing it from the candidates, when the
entry has a failed ancestor afterwards. -/
theorem mark
    (flagsBacked : tree.FlagsBacked)
    (notActive : ¬ pindex <:+ tree.chainActive)
    (sameData : ∀ nStatus, (change nStatus).haveData = nStatus.haveData)
    (raised : ∀ nStatus, nStatus.validity ≤ (change nStatus).validity)
    (keepsFailed : ∀ nStatus, nStatus.failedValid = true →
      (change nStatus).failedValid = true)
    (backed : (tree.modifyStatus pindex change).HasFailedAncestor pindex) :
    ((tree.modifyStatus pindex change).eraseCandidate pindex).FlagsBacked := by
  refine
    { (sameLinks_mark tree pindex sameData raised).linkedTree flagsBacked.toLinkedTree
        (fun candidate =>
          flagsBacked.candidates ((mem_eraseCandidate _ _ _).mp candidate).1)
        flagsBacked.tipKnown flagsBacked.tipLinked with
      backed := ?_, activeValid := ?_ }
  · intro other known marked
    by_cases same : other = pindex
    · exact same ▸ backed
    · have markedBefore : (tree.entry other).nStatus.failedChild = true := by
        simpa [eraseCandidate, nStatus_modifyStatus, same] using marked
      exact (flagsBacked.backed known markedBefore).modifyStatus keepsFailed
  · intro ancestor known isAncestor
    have notMarked : ancestor ≠ pindex := by
      rintro rfl
      exact notActive isAncestor
    simpa [eraseCandidate, nStatus_modifyStatus, notMarked] using
      flagsBacked.activeValid known isAncestor

theorem connectTip
    (flagsBacked : tree.FlagsBacked)
    (known : pindex ∈ tree.mapBlockIndex)
    (overTip : pindex.tail = tree.chainActive)
    (valid : (tree.entry pindex).nStatus.failed = false)
    (linked : (tree.entry pindex).nChainTx ≠ 0) :
    (tree.connectedTip pindex).pruneBlockIndexCandidates.FlagsBacked := by
  refine
    { (sameLinks_connectTip tree pindex).linkedTree flagsBacked.toLinkedTree ?_ known linked with
      backed := ?_, activeValid := ?_ }
  · intro other candidate
    exact flagsBacked.candidates ((mem_pruneBlockIndexCandidates _ _).mp candidate).1
  · intro other otherKnown marked
    refine (flagsBacked.backed otherKnown ?_).mono (fun known => known) ?_
    · exact (failedChild_connectedTip tree pindex other).symm.trans marked
    · intro ancestor _ failedValid
      exact (failedValid_connectedTip tree pindex ancestor).trans failedValid
  · intro ancestor ancestorKnown isAncestor
    refine (failed_connectedTip tree pindex ancestor).trans ?_
    cases pindex with
    | nil => exact absurd rfl (flagsBacked.named known)
    | cons hash pprev =>
      rcases List.suffix_cons_iff.mp isAncestor with rfl | ofParent
      · exact valid
      · change pprev = tree.chainActive at overTip
        exact flagsBacked.activeValid ancestorKnown (overTip ▸ ofParent)

end FlagsBacked

namespace IndexInvariant

theorem flagsConsistent (invariant : tree.IndexInvariant) : tree.FlagsConsistent where
  failedChild _ known marked := invariant.backed known marked
  candidate pindex known valid linked notWorse := by
    apply invariant.ready known _ linked ((valueComp_eq_false_iff _ _ _).mp notWorse)
    by_contra failed
    exact valid (invariant.hasFailedAncestor_of_failed known (by simpa using failed))

/-- A flagged entry may leave the candidates. -/
theorem mark
    (invariant : tree.IndexInvariant)
    (notActive : ¬ pindex <:+ tree.chainActive)
    (sameData : ∀ nStatus, (change nStatus).haveData = nStatus.haveData)
    (raised : ∀ nStatus, nStatus.validity ≤ (change nStatus).validity)
    (fails : ∀ nStatus, (change nStatus).failed = true)
    (keepsFailed : ∀ nStatus, nStatus.failedValid = true →
      (change nStatus).failedValid = true)
    (backed : (tree.modifyStatus pindex change).HasFailedAncestor pindex) :
    ((tree.modifyStatus pindex change).eraseCandidate pindex).IndexInvariant := by
  have sameLinks := sameLinks_mark tree pindex sameData raised
  refine
    { sameLinks.wellFormed invariant.toWellFormed
        (fun candidate => invariant.candidates ((mem_eraseCandidate _ _ _).mp candidate).1)
        invariant.tipKnown invariant.tipLinked,
      invariant.toFlagsBacked.mark notActive sameData raised keepsFailed backed with
      ready := ?_ }
  intro other known valid linked notWorse
  have notMarked : other ≠ pindex := by
    rintro rfl
    simp [eraseCandidate, nStatus_modifyStatus, fails] at valid
  rw [sameLinks.nChainTx] at linked
  rw [sameLinks.workKey, sameLinks.workKey] at notWorse
  have validBefore : (tree.entry other).nStatus.failed = false := by
    simpa [eraseCandidate, nStatus_modifyStatus, notMarked] using valid
  exact (mem_eraseCandidate _ _ _).mpr
    ⟨invariant.ready known validBefore linked notWorse, notMarked⟩

theorem markFailedValid
    (invariant : tree.IndexInvariant)
    (known : pindex ∈ tree.mapBlockIndex)
    (notActive : ¬ pindex <:+ tree.chainActive) :
    ((tree.modifyStatus pindex BlockStatus.setFailedValid).eraseCandidate pindex
      ).IndexInvariant := by
  apply invariant.mark notActive <;> try simp [BlockStatus.failed, BlockStatus.setFailedValid]
  refine ⟨pindex, known, List.suffix_refl pindex, ?_⟩
  simp [nStatus_modifyStatus, BlockStatus.setFailedValid]

theorem markFailedChild
    (invariant : tree.IndexInvariant)
    (failed : tree.HasFailedAncestor pindex)
    (notActive : ¬ pindex <:+ tree.chainActive) :
    ((tree.modifyStatus pindex BlockStatus.setFailedChild).eraseCandidate pindex
      ).IndexInvariant := by
  apply invariant.mark notActive <;> try simp [BlockStatus.failed, BlockStatus.setFailedChild]
  exact failed.modifyStatus fun _ failedValid => failedValid

theorem eraseFailed
    (invariant : tree.IndexInvariant)
    (failed : (tree.entry pindex).nStatus.failed = true) :
    (tree.eraseCandidate pindex).IndexInvariant :=
  { (sameLinks_eraseCandidate tree pindex).wellFormed invariant.toWellFormed
      (fun candidate => invariant.candidates ((mem_eraseCandidate _ _ _).mp candidate).1)
      invariant.tipKnown invariant.tipLinked with
    backed := invariant.backed
    ready := by
      intro other known valid linked notWorse
      refine (mem_eraseCandidate _ _ _).mpr ⟨invariant.ready known valid linked notWorse, ?_⟩
      rintro rfl
      exact Bool.false_ne_true (valid.symm.trans failed)
    activeValid := invariant.activeValid }

theorem invalidBlockFound
    (invariant : tree.IndexInvariant)
    (known : pindex ∈ tree.mapBlockIndex)
    (overTip : pindex.tail = tree.chainActive)
    (fCorruptionPossible : Bool) :
    (tree.invalidBlockFound pindex fCorruptionPossible).IndexInvariant := by
  rw [BlockTree.invalidBlockFound]
  split_ifs
  · exact invariant
  · apply invariant.markFailedValid known
    intro isAncestor
    have longer := isAncestor.length_le
    have notNull := List.length_pos_of_ne_nil (invariant.named known)
    rw [← overTip, List.length_tail] at longer
    omega

end IndexInvariant

/-- The walk down from a linked candidate stops at a flagged entry off the active chain or
at the active chain. -/
theorem testCandidate_of_linked
    (linkedTree : tree.LinkedTree)
    (known : pindex ∈ tree.mapBlockIndex)
    (linked : (tree.entry pindex).nChainTx ≠ 0)
    (tested : tree.testCandidate pindex = .unusable pindexTest) :
    pindexTest ∈ tree.mapBlockIndex ∧ pindexTest <:+ pindex ∧
      ¬ pindexTest <:+ tree.chainActive ∧
        (tree.entry pindexTest).nStatus.failed = true := by
  induction pindex with
  | nil => cases tested
  | cons hash pprev ih =>
    rw [testCandidate] at tested
    split_ifs at tested with contained missing unusable
    · cases tested
      refine ⟨known, List.suffix_refl _, ?_, ?_⟩
      · simpa [chainContains] using contained
      · simpa [(linkedTree.hasData known linked).1] using unusable
    · have notNull : pprev ≠ [] := by
        rintro rfl
        cases tested
      obtain ⟨testKnown, isAncestor, rest⟩ :=
        ih (linkedTree.parent known notNull) (linkedTree.parentLinked known notNull linked) tested
      exact ⟨testKnown, isAncestor.trans (List.suffix_cons hash pprev), rest⟩

/-- The assertion in the walk down from a linked candidate holds. -/
theorem testCandidate_ne_assertFails
    (linkedTree : tree.LinkedTree)
    (known : pindex ∈ tree.mapBlockIndex)
    (linked : (tree.entry pindex).nChainTx ≠ 0) :
    tree.testCandidate pindex ≠ .assertFails := by
  induction pindex with
  | nil => simp [testCandidate]
  | cons hash pprev ih =>
    rw [testCandidate]
    split_ifs with contained missing
    · simp
    · exact absurd missing.1 linked
    · simp
    · by_cases notNull : pprev = []
      · simp [notNull, testCandidate]
      · exact ih (linkedTree.parent known notNull) (linkedTree.parentLinked known notNull linked)

theorem valid_of_testCandidate
    (flagsBacked : tree.FlagsBacked)
    (known : pindex ∈ tree.mapBlockIndex)
    (tested : tree.testCandidate pindex = .usable)
    (notNull : ancestor ≠ [])
    (isAncestor : ancestor <:+ pindex) :
    (tree.entry ancestor).nStatus.failed = false := by
  induction pindex with
  | nil => exact absurd (List.suffix_nil.mp isAncestor) notNull
  | cons hash pprev ih =>
    have ancestorKnown := flagsBacked.ancestor_known known notNull isAncestor
    rw [testCandidate] at tested
    split_ifs at tested with contained missing unusable
    · have active : hash :: pprev <:+ tree.chainActive := by
        simpa [chainContains] using contained
      exact flagsBacked.activeValid ancestorKnown (isAncestor.trans active)
    · rcases List.suffix_cons_iff.mp isAncestor with rfl | ofParent
      · simp only [Bool.or_eq_true, not_or, Bool.not_eq_true] at unusable
        exact unusable.1
      · have parentNotNull : pprev ≠ [] := by
          rintro rfl
          exact notNull (List.suffix_nil.mp ofParent)
        exact ih (flagsBacked.parent known parentNotNull) tested ofParent

/-- A property of the index that stays when `FindMostWorkChain` marks a descendant of a
flagged entry and when it erases a flagged entry. -/
structure KeptByRemoval (Holds : BlockTree → Prop) : Prop where
  flagsBacked : ∀ {tree}, Holds tree → tree.FlagsBacked
  markFailedChild : ∀ {tree} {pindexTest pindex : BlockPath}, Holds tree →
    pindexTest ∈ tree.mapBlockIndex → (tree.entry pindexTest).nStatus.failed = true →
      pindexTest <:+ pindex → ¬ pindex <:+ tree.chainActive →
        Holds ((tree.modifyStatus pindex BlockStatus.setFailedChild).eraseCandidate pindex)
  eraseFailed : ∀ {tree} {pindex : BlockPath}, Holds tree →
    pindex ∈ tree.mapBlockIndex → (tree.entry pindex).nStatus.failed = true →
      Holds (tree.eraseCandidate pindex)

theorem length_eraseCandidate_le (tree : BlockTree) (pindex : BlockPath) :
    (tree.eraseCandidate pindex).setBlockIndexCandidates.length ≤
      tree.setBlockIndexCandidates.length :=
  List.length_filter_le _ _

theorem length_removeChain_le
    (fFailedChain : Bool)
    (pindexTest : BlockPath)
    (pindex : BlockPath) :
    ∀ (tree : BlockTree),
      (removeChain fFailedChain pindexTest pindex tree).setBlockIndexCandidates.length ≤
        tree.setBlockIndexCandidates.length := by
  induction pindex with
  | nil => exact fun _ => le_rfl
  | cons hash pprev ih =>
    intro tree
    rw [removeChain]
    split_ifs
    · exact length_eraseCandidate_le tree pindexTest
    · refine (ih _).trans ?_
      rw [removeDescendant]
      refine (length_eraseCandidate_le _ _).trans ?_
      split_ifs <;> exact le_rfl

theorem length_removeChain_lt
    (fFailedChain : Bool)
    (pindexTest : BlockPath)
    (notNull : pindex ≠ [])
    (candidate : pindex ∈ tree.setBlockIndexCandidates) :
    (removeChain fFailedChain pindexTest pindex tree).setBlockIndexCandidates.length <
      tree.setBlockIndexCandidates.length := by
  have erased {middle : BlockTree}
      (same : middle.setBlockIndexCandidates = tree.setBlockIndexCandidates) :
      (middle.eraseCandidate pindex).setBlockIndexCandidates.length <
        tree.setBlockIndexCandidates.length := by
    rw [eraseCandidate, same]
    exact List.length_filter_lt_length_iff_exists.mpr ⟨pindex, candidate, by simp⟩
  cases pindex with
  | nil => exact absurd rfl notNull
  | cons hash pprev =>
    rw [removeChain]
    split_ifs with reached
    · exact reached ▸ erased rfl
    · refine (length_removeChain_le fFailedChain pindexTest pprev _).trans_lt ?_
      rw [removeDescendant]
      split_ifs <;> exact erased rfl

namespace KeptByRemoval

/-- Removing the descendants of a flagged entry that lie between it and a candidate. -/
theorem removeChain
    (kept : KeptByRemoval Holds)
    (notNull : pindexTest ≠ [])
    (isAncestor : pindexTest <:+ pindex) :
    ∀ {tree : BlockTree},
      Holds tree → pindexTest ∈ tree.mapBlockIndex → ¬ pindexTest <:+ tree.chainActive →
        (tree.entry pindexTest).nStatus.failed = true →
          Holds (BlockTree.removeChain true pindexTest pindex tree) := by
  induction pindex with
  | nil => exact absurd (List.suffix_nil.mp isAncestor) notNull
  | cons hash pprev ih =>
    intro tree holds known notActive failed
    rw [BlockTree.removeChain]
    split_ifs with reached
    · exact kept.eraseFailed holds known failed
    · have ancestorOfParent : pindexTest <:+ pprev :=
        (List.suffix_cons_iff.mp isAncestor).resolve_left (Ne.symm reached)
      apply ih ancestorOfParent
      · exact kept.markFailedChild holds known failed isAncestor
          fun isActive => notActive (isAncestor.trans isActive)
      · exact known
      · exact notActive
      · simpa [removeDescendant, eraseCandidate, nStatus_modifyStatus, Ne.symm reached] using failed

/-- The loop of `FindMostWorkChain` keeps the property, and ends at the best candidate
left, which is usable. -/
theorem findMostWorkLoop
    (kept : KeptByRemoval Holds) :
    ∀ (fuel : Nat) {tree : BlockTree} {best : Option BlockPath} {next : BlockTree},
      Holds tree → BlockTree.findMostWorkLoop fuel tree = some (best, next) →
        Holds next ∧ next.setBlockIndexCandidates.argmax next.workKey = best ∧
          ∀ pindexNew, best = some pindexNew → next.testCandidate pindexNew = .usable
  | 0, _, _, _, _, found => by cases found
  | fuel + 1, tree, best, next, holds, found => by
    rw [BlockTree.findMostWorkLoop] at found
    cases isBest : tree.setBlockIndexCandidates.argmax tree.workKey with
    | none =>
      simp only [isBest, Option.some.injEq, Prod.mk.injEq] at found
      obtain ⟨rfl, rfl⟩ := found
      exact ⟨holds, isBest, by simp⟩
    | some pindexNew =>
      have linkedTree := (kept.flagsBacked holds).toLinkedTree
      have candidate := linkedTree.candidates (List.argmax_mem isBest)
      cases tested : tree.testCandidate pindexNew with
      | usable =>
        simp only [isBest, tested, Option.some.injEq, Prod.mk.injEq] at found
        obtain ⟨rfl, rfl⟩ := found
        refine ⟨holds, isBest, ?_⟩
        rintro _ ⟨⟩
        exact tested
      | assertFails => simp [isBest, tested] at found
      | unusable pindexTest =>
        obtain ⟨known, isAncestor, notActive, failed⟩ :=
          testCandidate_of_linked linkedTree candidate.1 candidate.2 tested
        simp only [isBest, tested, failed] at found
        exact kept.findMostWorkLoop fuel
          (kept.removeChain (linkedTree.named known) isAncestor holds known notActive failed) found

theorem findMostWorkLoop_isSome
    (kept : KeptByRemoval Holds) :
    ∀ (fuel : Nat) {tree : BlockTree},
      Holds tree → tree.setBlockIndexCandidates.length < fuel →
        (BlockTree.findMostWorkLoop fuel tree).isSome
  | fuel + 1, tree, holds, enough => by
    rw [BlockTree.findMostWorkLoop]
    cases isBest : tree.setBlockIndexCandidates.argmax tree.workKey with
    | none => rfl
    | some pindexNew =>
      have linkedTree := (kept.flagsBacked holds).toLinkedTree
      have isCandidate := List.argmax_mem isBest
      have candidate := linkedTree.candidates isCandidate
      cases tested : tree.testCandidate pindexNew with
      | usable => simp [tested]
      | assertFails =>
        exact absurd tested (testCandidate_ne_assertFails linkedTree candidate.1 candidate.2)
      | unusable pindexTest =>
        obtain ⟨known, isAncestor, notActive, failed⟩ :=
          testCandidate_of_linked linkedTree candidate.1 candidate.2 tested
        simp only [tested, failed]
        apply kept.findMostWorkLoop_isSome fuel
        · exact kept.removeChain (linkedTree.named known) isAncestor holds known notActive failed
        · have shorter := length_removeChain_lt true pindexTest
            (linkedTree.named candidate.1) isCandidate
          omega

end KeptByRemoval

namespace IndexInvariant

theorem keptByRemoval : KeptByRemoval IndexInvariant where
  flagsBacked invariant := invariant.toFlagsBacked
  markFailedChild invariant known failed isAncestor notActive :=
    invariant.markFailedChild
      ((invariant.hasFailedAncestor_of_failed known failed).of_ancestor isAncestor) notActive
  eraseFailed invariant _ failed := invariant.eraseFailed failed

/-- `FindMostWorkChain` returns: no assertion fails, and there are rounds enough. -/
theorem findMostWorkChain_isSome (invariant : tree.IndexInvariant) :
    tree.findMostWorkChain.isSome :=
  keptByRemoval.findMostWorkLoop_isSome _ invariant (Nat.lt_succ_self _)

theorem findMostWorkChain
    (invariant : tree.IndexInvariant)
    (found : tree.findMostWorkChain = some (best, next)) :
    next.IndexInvariant :=
  (keptByRemoval.findMostWorkLoop _ invariant found).1

/-- `ConnectTip` on a usable child of the tip, with `PruneBlockIndexCandidates` after
it. -/
theorem connectTip
    (invariant : tree.IndexInvariant)
    (known : pindex ∈ tree.mapBlockIndex)
    (overTip : pindex.tail = tree.chainActive)
    (valid : (tree.entry pindex).nStatus.failed = false)
    (linked : (tree.entry pindex).nChainTx ≠ 0) :
    (tree.connectedTip pindex).pruneBlockIndexCandidates.IndexInvariant := by
  have sameLinks := sameLinks_connectTip tree pindex
  have notNull : pindex.tail ≠ [] := by
    rw [overTip]
    exact invariant.named invariant.tipKnown
  have better : tree.workKey tree.chainActive < tree.workKey pindex := by
    rw [← overTip]
    exact BlockTreeEntry.workKey_lt_of_nChainWork_lt (invariant.heavier known notNull)
  refine
    { sameLinks.wellFormed invariant.toWellFormed ?_ known linked,
      invariant.toFlagsBacked.connectTip known overTip valid linked with
      ready := ?_ }
  · intro other candidate
    exact invariant.candidates ((mem_pruneBlockIndexCandidates _ _).mp candidate).1
  · intro other otherKnown otherValid otherLinked notWorse
    change ((tree.connectedTip pindex).entry other).nStatus.failed = false at otherValid
    rw [failed_connectedTip] at otherValid
    rw [sameLinks.nChainTx] at otherLinked
    rw [mem_pruneBlockIndexCandidates]
    rw [sameLinks.workKey, sameLinks.workKey] at notWorse
    rw [(sameLinks_connectedTip tree pindex).workKey, (sameLinks_connectedTip tree pindex).workKey]
    exact ⟨invariant.ready otherKnown otherValid otherLinked (better.le.trans notWorse), notWorse⟩

theorem addToBlockIndex
    (invariant : tree.IndexInvariant)
    (parentKnown : tree.find header.hashPrevBlock = some pprev)
    (proof : getBlockProof header.nBits ≠ 0)
    (fresh : ∀ other ∈ tree.mapBlockIndex, (tree.entry other).address ≠ address) :
    (tree.addToBlockIndex header address).IndexInvariant := by
  rw [BlockTree.addToBlockIndex]
  cases found : tree.find header.hash with
  | some _ => exact invariant
  | none =>
    have pprevKnown := mem_of_find parentKnown
    have pprevNotNull := invariant.named pprevKnown
    simp only [parentKnown, Option.getD_some]
    generalize isNext : BlockTree.mk _ _ _ _ _ _ = next
    have sameEntry : ∀ {other}, other ∈ tree.mapBlockIndex →
        next.entry other = tree.entry other := by
      intro other known
      have notNew : other ≠ header.hash :: pprev := by
        rintro rfl
        exact not_mem_of_find_eq_none found pprev known
      simp [← isNext, notNew]
    have isNew : next.entry (header.hash :: pprev) = tree.newEntry header pprev address := by
      simp [← isNext]
    have sameKey : ∀ {other}, other ∈ tree.mapBlockIndex →
        next.workKey other = tree.workKey other := by
      intro other known
      rw [workKey, workKey, sameEntry known]
    have index : next.mapBlockIndex = (header.hash :: pprev) :: tree.mapBlockIndex := by
      rw [← isNext]
    have sameUnlinked : next.mapBlocksUnlinked = tree.mapBlocksUnlinked := by rw [← isNext]
    have sameCandidates : next.setBlockIndexCandidates = tree.setBlockIndexCandidates := by
      rw [← isNext]
    have sameTip : next.chainActive = tree.chainActive := by rw [← isNext]
    refine
      { named := ?_, parent := ?_, allocated := ?_, hasData := ?_, parentLinked := ?_,
        candidates := ?_, tipKnown := ?_, tipLinked := ?_, heavier := ?_,
        unlinked := ?_, backed := ?_, activeValid := ?_, ready := ?_ } <;>
      simp only [index, sameUnlinked, sameCandidates, sameTip, List.mem_cons]
    · rintro other (rfl | known)
      · simp
      · exact invariant.named known
    · rintro other (rfl | known) notNull
      · exact .inr pprevKnown
      · exact .inr (invariant.parent known notNull)
    · rintro pa pb (rfl | aKnown) (rfl | bKnown) sameAddress
      · rfl
      · rw [isNew, sameEntry bKnown] at sameAddress
        exact absurd sameAddress.symm (fresh pb bKnown)
      · rw [isNew, sameEntry aKnown] at sameAddress
        exact absurd sameAddress (fresh pa aKnown)
      · rw [sameEntry aKnown, sameEntry bKnown] at sameAddress
        exact invariant.allocated aKnown bKnown sameAddress
    · rintro other (rfl | known) linked
      · simp [isNew, newEntry] at linked
      · rw [sameEntry known] at linked ⊢
        exact invariant.hasData known linked
    · rintro other (rfl | known) notNull linked
      · simp [isNew, newEntry] at linked
      · rw [sameEntry known] at linked
        rw [sameEntry (invariant.parent known notNull)]
        exact invariant.parentLinked known notNull linked
    · intro other candidate
      obtain ⟨known, linked⟩ := invariant.candidates candidate
      exact ⟨.inr known, by rwa [sameEntry known]⟩
    · exact .inr invariant.tipKnown
    · rw [sameEntry invariant.tipKnown]
      exact invariant.tipLinked
    · rintro other (rfl | known) notNull
      · rw [isNew, List.tail_cons, sameEntry pprevKnown]
        simp [newEntry, pprevNotNull, Nat.pos_of_ne_zero proof]
      · rw [sameEntry known, sameEntry (invariant.parent known notNull)]
        exact invariant.heavier known notNull
    · intro other waiting
      obtain ⟨known, notNull, rest⟩ := invariant.unlinked waiting
      rw [sameEntry known, sameEntry (invariant.parent known notNull)]
      exact ⟨.inr known, notNull, rest⟩
    · rintro other (rfl | known) marked
      · simp [isNew, newEntry] at marked
      · rw [sameEntry known] at marked
        refine (invariant.backed known marked).mono ?_ ?_
        · intro ancestor ancestorKnown
          exact index ▸ List.mem_cons_of_mem _ ancestorKnown
        · intro ancestor ancestorKnown failedValid
          rwa [sameEntry ancestorKnown]
    · rintro ancestor (rfl | known) isAncestor
      · simp [isNew, newEntry, BlockStatus.failed]
      · rw [sameEntry known]
        exact invariant.activeValid known isAncestor
    · rintro other (rfl | known) valid linked notWorse
      · simp [isNew, newEntry] at linked
      · rw [sameEntry known] at valid linked
        rw [sameKey known, sameKey invariant.tipKnown] at notWorse
        exact invariant.ready known valid linked notWorse

/-- An entry with data over a linked parent that is not the tip. -/
structure Linkable (tree : BlockTree) (pindex : BlockPath) : Prop where
  known : pindex ∈ tree.mapBlockIndex
  notNull : pindex.tail ≠ []
  parentLinked : (tree.entry pindex.tail).nChainTx ≠ 0
  haveData : (tree.entry pindex).nStatus.haveData = true
  valid : blockValidTransactions ≤ (tree.entry pindex).nStatus.validity
  notTip : pindex ≠ tree.chainActive

theorem Linkable.nChainTx_ne_zero
    (linkable : Linkable tree pindex)
    (linked : other = pindex ∨ (tree.entry other).nChainTx ≠ 0) :
    ((tree.linkEntry pindex).entry other).nChainTx ≠ 0 := by
  have parentLinked := linkable.parentLinked
  rw [nChainTx_linkEntry, parentChainTx, if_neg linkable.notNull]
  split_ifs with same
  · omega
  · exact linked.resolve_left same

theorem Linkable.linkEntry
    (linkable : Linkable tree pindex)
    (otherLinkable : Linkable tree other) :
    Linkable (tree.linkEntry pindex) other where
  known := by simpa using otherLinkable.known
  notNull := otherLinkable.notNull
  parentLinked := linkable.nChainTx_ne_zero (.inr otherLinkable.parentLinked)
  haveData := by simpa using otherLinkable.haveData
  valid := by simpa using otherLinkable.valid
  notTip := by simpa using otherLinkable.notTip

/-- An entry that waits for the entry just linked can be linked next. -/
theorem Linkable.of_waiting
    (linkable : Linkable tree pindex)
    (invariant : tree.IndexInvariant)
    (waiting : other ∈ tree.mapBlocksUnlinked)
    (forEntry : other.tail = pindex) :
    Linkable (tree.linkEntry pindex) other := by
  obtain ⟨known, notNull, parentNotLinked, haveData, valid⟩ := invariant.unlinked waiting
  refine ⟨by simpa using known, notNull, ?_, by simpa using haveData, by simpa using valid, ?_⟩
  · exact linkable.nChainTx_ne_zero (.inl forEntry)
  · rw [chainActive_linkEntry]
    rintro rfl
    exact invariant.parentLinked known notNull invariant.tipLinked parentNotLinked

theorem linkEntry
    (invariant : tree.IndexInvariant)
    (linkable : Linkable tree pindex) :
    (tree.linkEntry pindex).IndexInvariant := by
  have sameKey {other : BlockPath} (unlike : other ≠ pindex) := workKey_linkEntry tree unlike
  refine
    { named := ?_, parent := ?_, allocated := ?_, hasData := ?_, parentLinked := ?_,
      candidates := ?_, tipKnown := ?_, tipLinked := ?_, heavier := ?_, unlinked := ?_,
      backed := ?_, activeValid := ?_, ready := ?_ } <;>
    simp only [mapBlockIndex_linkEntry, chainActive_linkEntry, address_linkEntry,
      nChainWork_linkEntry, nStatus_linkEntry]
  · exact invariant.named
  · exact invariant.parent
  · exact invariant.allocated
  · intro other known linked
    by_cases same : other = pindex
    · exact same ▸ ⟨linkable.haveData, linkable.valid⟩
    · rw [nChainTx_linkEntry, if_neg same] at linked
      exact invariant.hasData known linked
  · intro other known notNull linked
    apply linkable.nChainTx_ne_zero
    by_cases same : other = pindex
    · exact .inr (same ▸ linkable.parentLinked)
    · rw [nChainTx_linkEntry, if_neg same] at linked
      exact .inr (invariant.parentLinked known notNull linked)
  · intro other candidate
    rcases (mem_linkEntry tree pindex other).mp candidate with before | ⟨same, -⟩
    · have ⟨known, linked⟩ := invariant.candidates before
      exact ⟨known, linkable.nChainTx_ne_zero (.inr linked)⟩
    · exact ⟨same ▸ linkable.known, linkable.nChainTx_ne_zero (.inl same)⟩
  · exact invariant.tipKnown
  · exact linkable.nChainTx_ne_zero (.inr invariant.tipLinked)
  · exact invariant.heavier
  · intro other waiting
    rw [mem_unlinked_linkEntry] at waiting
    rw [nChainTx_linkEntry, if_neg waiting.2]
    exact invariant.unlinked waiting.1
  · intro other known marked
    refine (invariant.backed known marked).mono ?_ ?_
    · intro ancestor ancestorKnown
      simpa using ancestorKnown
    · intro ancestor _ failedValid
      simpa using failedValid
  · exact invariant.activeValid
  · intro other known valid linked notWorse
    rw [mem_linkEntry]
    by_cases same : other = pindex
    · exact .inr ⟨same, .inr (same ▸ notWorse)⟩
    · rw [nChainTx_linkEntry, if_neg same] at linked
      rw [sameKey same, sameKey linkable.notTip.symm] at notWorse
      exact .inl (invariant.ready known valid linked notWorse)

theorem linkLoop :
    ∀ (fuel : Nat) {queue : List BlockPath} {tree : BlockTree},
      tree.IndexInvariant → (∀ pindex ∈ queue, Linkable tree pindex) →
        (BlockTree.linkLoop fuel queue tree).IndexInvariant
  | 0, _, _, invariant, _ => invariant
  | _ + 1, [], _, invariant, _ => invariant
  | fuel + 1, pindex :: queue, tree, invariant, linkable => by
    have first := linkable pindex List.mem_cons_self
    refine linkLoop fuel (invariant.linkEntry first) ?_
    intro other queued
    rcases List.mem_append.mp queued with inQueue | waiting
    · exact first.linkEntry (linkable other (List.mem_cons_of_mem _ inQueue))
    · rw [List.mem_filter, beq_iff_eq] at waiting
      exact first.of_waiting invariant waiting.1 waiting.2

theorem recordData
    (invariant : tree.IndexInvariant)
    (known : pindex ∈ tree.mapBlockIndex)
    (noData : (tree.entry pindex).nStatus.haveData = false)
    (nTx : Nat) :
    (tree.recordData pindex nTx).IndexInvariant := by
  have notLinked : (tree.entry pindex).nChainTx = 0 := by
    by_contra linked
    exact Bool.false_ne_true (noData.symm.trans (invariant.hasData known linked).1)
  have sameLinks := sameLinks_recordData notLinked nTx
  refine
    { sameLinks.wellFormed invariant.toWellFormed invariant.candidates invariant.tipKnown
        invariant.tipLinked with
      backed := ?_, activeValid := ?_, ready := ?_ }
  · intro other otherKnown marked
    rw [failedChild_recordData] at marked
    refine (invariant.backed otherKnown marked).mono (fun known => known) ?_
    intro ancestor _ failedValid
    rwa [failedValid_recordData]
  · intro ancestor ancestorKnown isAncestor
    rw [failed_recordData]
    exact invariant.activeValid ancestorKnown isAncestor
  · intro other otherKnown valid linked notWorse
    rw [failed_recordData] at valid
    rw [sameLinks.nChainTx] at linked
    rw [sameLinks.workKey, sameLinks.workKey] at notWorse
    exact invariant.ready otherKnown valid linked notWorse

/-- `ReceivedBlockTransactions`, called for an unmarked entry without data that is not the
genesis block's. -/
theorem receivedBlockTransactions
    (invariant : tree.IndexInvariant)
    (known : pindex ∈ tree.mapBlockIndex)
    (notGenesis : pindex.tail ≠ [])
    (noData : (tree.entry pindex).nStatus.haveData = false)
    (valid : (tree.entry pindex).nStatus.failed = false)
    (nTx : Nat) :
    (tree.receivedBlockTransactions pindex nTx).IndexInvariant := by
  have recorded := invariant.recordData known noData nTx
  have haveData : ((tree.recordData pindex nTx).entry pindex).nStatus.haveData = true := by
    simp [BlockTree.recordData, modifyEntry]
  have validity : blockValidTransactions ≤
      ((tree.recordData pindex nTx).entry pindex).nStatus.validity := by
    simp only [BlockTree.recordData, modifyEntry, Function.update_self]
    exact @BlockStatus.raiseValidity_of_valid
      { (tree.entry pindex).nStatus with haveData := true } valid _
  rw [BlockTree.receivedBlockTransactions]
  split_ifs with linked validParent
  · refine linkLoop _ recorded ?_
    intro other queued
    rw [List.mem_singleton] at queued
    subst queued
    refine ⟨known, notGenesis, linked.resolve_left notGenesis, haveData, validity, ?_⟩
    intro isTip
    change other = tree.chainActive at isTip
    have tipData := invariant.hasData invariant.tipKnown invariant.tipLinked
    rw [← isTip] at tipData
    exact Bool.false_ne_true (noData.symm.trans tipData.1)
  · have notLinked : ((tree.recordData pindex nTx).entry pindex.tail).nChainTx = 0 := by
      by_contra parentLinked
      exact linked (.inr parentLinked)
    exact
      { recorded with
        unlinked := by
          intro other waiting
          rcases List.mem_append.mp waiting with before | isNew
          · exact recorded.unlinked before
          · rw [List.mem_singleton] at isNew
            subst isNew
            exact ⟨known, notGenesis, notLinked, haveData, validity⟩ }
  · exact recorded

end IndexInvariant

/-- While `InvalidateBlock` disconnects, only the entries above the block may be flagged
on the active chain; the candidates are put right at the end. -/
structure Disconnecting (tree : BlockTree) (pindex : BlockPath) : Prop
    extends tree.WellFormed where
  backed : ∀ {other}, other ∈ tree.mapBlockIndex →
    (tree.entry other).nStatus.failedChild = true → tree.HasFailedAncestor other
  known : pindex ∈ tree.mapBlockIndex
  failed : (tree.entry pindex).nStatus.failedValid = true
  validBelow : ∀ {ancestor}, ancestor ∈ tree.mapBlockIndex →
    ancestor <:+ tree.chainActive → ¬ pindex <:+ ancestor →
      (tree.entry ancestor).nStatus.failed = false

/-- The disconnects that `InvalidateBlock` asks for succeed. -/
def DisconnectsSucceed (tree : BlockTree) (pindex : BlockPath)
    (disconnects : BlockPath → Bool) : Prop :=
  ∀ tip, pindex <:+ tip → tip <:+ tree.chainActive →
    tip.tail ≠ [] ∧ disconnects tip = true

namespace Disconnecting

theorem disconnectTip
    (disconnecting : Disconnecting tree pindex)
    (active : pindex <:+ tree.chainActive)
    (notGenesis : tree.chainActive.tail ≠ []) :
    Disconnecting
      { (tree.modifyStatus tree.chainActive BlockStatus.setFailedChild
          ).eraseCandidate tree.chainActive with
        chainActive := tree.chainActive.tail } pindex := by
  generalize isNext : BlockTree.mk _ _ _ _ _ _ = next
  have sameLinks : SameLinks tree next := by
    subst isNext
    exact ((sameLinks_setFailedChild tree tree.chainActive).trans
      (sameLinks_eraseCandidate _ tree.chainActive)).trans (.of_entries rfl rfl rfl)
  have nextStatus (other : BlockPath) : (next.entry other).nStatus =
      if other = tree.chainActive then
        (tree.entry tree.chainActive).nStatus.setFailedChild
      else (tree.entry other).nStatus := by
    subst isNext
    exact nStatus_modifyStatus tree tree.chainActive other BlockStatus.setFailedChild
  have keepsFailed (other : BlockPath)
      (failedValid : (tree.entry other).nStatus.failedValid = true) :
      (next.entry other).nStatus.failedValid = true := by
    rw [nextStatus]
    split_ifs with same
    · exact same ▸ failedValid
    · exact failedValid
  have nextTip : next.chainActive = tree.chainActive.tail := by rw [← isNext]
  have nextIndex : next.mapBlockIndex = tree.mapBlockIndex := sameLinks.mapBlockIndex
  refine
    { sameLinks.wellFormed disconnecting.toWellFormed ?_ ?_ ?_ with
      backed := ?_, known := ?_, failed := ?_, validBelow := ?_ }
  · intro other candidate
    rw [← isNext] at candidate
    exact disconnecting.candidates ((mem_eraseCandidate _ _ _).mp candidate).1
  · rw [nextTip]
    exact disconnecting.parent disconnecting.tipKnown notGenesis
  · rw [nextTip]
    exact disconnecting.parentLinked disconnecting.tipKnown notGenesis disconnecting.tipLinked
  · intro other otherKnown marked
    have failedBefore : tree.HasFailedAncestor other := by
      rw [nextIndex] at otherKnown
      rw [nextStatus] at marked
      split_ifs at marked with same
      · exact ⟨pindex, disconnecting.known, same ▸ active, disconnecting.failed⟩
      · exact disconnecting.backed otherKnown marked
    exact failedBefore.mono (fun known => nextIndex ▸ known) fun _ => keepsFailed _
  · exact nextIndex ▸ disconnecting.known
  · exact keepsFailed pindex disconnecting.failed
  · intro ancestor ancestorKnown isAncestor notAbove
    rw [nextTip] at isAncestor
    rw [nextIndex] at ancestorKnown
    have notTip : ancestor ≠ tree.chainActive := by
      rintro rfl
      exact notAbove active
    rw [nextStatus, if_neg notTip]
    exact disconnecting.validBelow ancestorKnown
      (isAncestor.trans (List.tail_suffix tree.chainActive)) notAbove

/-- The loop of `InvalidateBlock` ends below the block. -/
theorem disconnectDownTo
    (tip : BlockPath) :
    ∀ {tree : BlockTree},
      Disconnecting tree pindex → tree.chainActive = tip →
        DisconnectsSucceed tree pindex disconnects →
          ∃ next, BlockTree.disconnectDownTo disconnects pindex tip tree = (true, next) ∧
            Disconnecting next pindex ∧ ¬ pindex <:+ next.chainActive := by
  induction tip with
  | nil =>
    intro tree disconnecting isTip _
    exact absurd isTip (disconnecting.named disconnecting.tipKnown)
  | cons hash pprev ih =>
    intro tree disconnecting isTip succeed
    rw [BlockTree.disconnectDownTo]
    by_cases active : pindex <:+ hash :: pprev
    · have isActive : pindex <:+ tree.chainActive := isTip ▸ active
      have ⟨notGenesis, succeeds⟩ := succeed (hash :: pprev) active (isTip ▸ List.suffix_refl _)
      have step := disconnecting.disconnectTip isActive (by rwa [isTip])
      rw [isTip, List.tail_cons] at step
      change pprev ≠ [] at notGenesis
      rw [if_pos (List.isSuffixOf_iff_suffix.mpr active), if_pos (by simp [notGenesis, succeeds])]
      apply ih step rfl
      intro lower above below
      exact succeed lower above (isTip ▸ below.trans (List.suffix_cons hash pprev))
    · rw [if_neg (fun isSuffix => active (List.isSuffixOf_iff_suffix.mp isSuffix))]
      exact ⟨tree, rfl, disconnecting, isTip ▸ active⟩

/-- Below the block, the entries that `InvalidateBlock` adds again make up for the worse
tip. -/
theorem insertCandidates
    (disconnecting : Disconnecting tree pindex)
    (below : ¬ pindex <:+ tree.chainActive) :
    (tree.insertCandidates tree.readmitted).IndexInvariant :=
  { (sameLinks_insertCandidates tree tree.readmitted).wellFormed
      disconnecting.toWellFormed
      (by
        intro other candidate
        rcases (mem_insertCandidates _ _ _).mp candidate with before | ⟨known, again⟩
        · exact disconnecting.candidates before
        · simp only [readmitted, Bool.and_eq_true, bne_iff_ne] at again
          exact ⟨known, again.1.2⟩)
      disconnecting.tipKnown disconnecting.tipLinked with
    backed := disconnecting.backed
    ready := by
      intro other known valid linked notWorse
      have validity := (disconnecting.hasData known linked).2
      refine (mem_insertCandidates _ _ _).mpr (.inr ⟨known, ?_⟩)
      change (tree.entry other).nStatus.failed = false at valid
      simpa [readmitted, BlockStatus.isValid, valid, validity] using ⟨linked, notWorse⟩
    activeValid := by
      intro ancestor known isAncestor
      exact disconnecting.validBelow known isAncestor fun above => below (above.trans isAncestor) }

end Disconnecting

namespace IndexInvariant

theorem invalidateBlock
    (invariant : tree.IndexInvariant)
    (known : pindex ∈ tree.mapBlockIndex)
    (succeed : DisconnectsSucceed tree pindex disconnects) :
    (tree.invalidateBlock pindex disconnects).2.IndexInvariant := by
  have start : Disconnecting
      ((tree.modifyStatus pindex BlockStatus.setFailedValid).eraseCandidate pindex)
      pindex := by
    have sameLinks :=
      (sameLinks_setFailedValid tree pindex).trans (sameLinks_eraseCandidate _ pindex)
    refine
      { sameLinks.wellFormed invariant.toWellFormed
          (fun candidate =>
            invariant.candidates ((mem_eraseCandidate _ _ _).mp candidate).1)
          invariant.tipKnown invariant.tipLinked with
        backed := ?_, known := known, failed := ?_, validBelow := ?_ }
    · intro other otherKnown marked
      have markedBefore : (tree.entry other).nStatus.failedChild = true := by
        by_cases same : other = pindex <;>
          simpa [eraseCandidate, nStatus_modifyStatus, BlockStatus.setFailedValid, same]
            using marked
      refine (invariant.backed otherKnown markedBefore).mono (fun known => known) ?_
      intro ancestor _ failedValid
      by_cases same : ancestor = pindex
      · simp [eraseCandidate, nStatus_modifyStatus, BlockStatus.setFailedValid, same]
      · simpa [eraseCandidate, nStatus_modifyStatus, same] using failedValid
    · simp [eraseCandidate, nStatus_modifyStatus, BlockStatus.setFailedValid]
    · intro ancestor ancestorKnown isAncestor notAbove
      have notMarked : ancestor ≠ pindex := by
        rintro rfl
        exact notAbove (List.suffix_refl ancestor)
      simpa [eraseCandidate, nStatus_modifyStatus, notMarked] using
        invariant.activeValid ancestorKnown isAncestor
  obtain ⟨next, disconnected, disconnecting, below⟩ :=
    start.disconnectDownTo tree.chainActive rfl succeed
  have sameTip : ((tree.modifyStatus pindex BlockStatus.setFailedValid).eraseCandidate
      pindex).chainActive = tree.chainActive := rfl
  rw [BlockTree.invalidateBlock, sameTip, disconnected]
  exact disconnecting.insertCandidates below

end IndexInvariant

theorem getAncestor_eq_some_iff
    (notNull : pindex ≠ [])
    (it : BlockPath) :
    it.getAncestor (pindex.length - 1) = some pindex ↔ pindex <:+ it := by
  have positive := List.length_pos_of_ne_nil notNull
  have height : pindex.length - 1 + 1 = pindex.length := by omega
  rw [BlockPath.getAncestor, height, List.suffix_iff_eq_drop]
  split_ifs with tooLow
  · simp only [false_iff]
    intro isDrop
    have lengths := congrArg List.length isDrop
    rw [List.length_drop] at lengths
    omega
  · simp [eq_comm]

theorem reconsidered_iff
    (notNull : pindex ≠ [])
    (it : BlockPath) :
    tree.reconsidered pindex it = true ↔
      it ∈ tree.mapBlockIndex ∧
        (tree.entry it).nStatus.isValid blockValidTransactions = false ∧ pindex <:+ it := by
  simp [reconsidered, getAncestor_eq_some_iff notNull, and_assoc]

/-- What `ReconsiderBlock` leaves consistent: no other descendant of an ancestor is
flagged because of the ancestors whose flags go, and none of these is missing among the
candidates. -/
structure Reconsiderable (tree : BlockTree) (pindex : BlockPath) : Prop where
  otherBranches : ∀ it ∈ tree.mapBlockIndex, (tree.entry it).nStatus.failedChild = true →
    ¬ it <:+ pindex → ¬ pindex <:+ it →
      ∃ ancestor ∈ tree.mapBlockIndex, ancestor <:+ it ∧
        (tree.entry ancestor).nStatus.failedValid = true ∧ ¬ ancestor <:+ pindex
  ancestors : ∀ it ∈ tree.mapBlockIndex, it <:+ pindex → it ≠ pindex →
    (tree.entry it).nStatus.failed = true → (tree.entry it).nChainTx ≠ 0 →
      tree.valueComp it tree.chainActive = false → it ∈ tree.setBlockIndexCandidates

theorem sameLinks_reconsiderBlock (tree : BlockTree) (pindex : BlockPath) :
    SameLinks tree (tree.reconsiderBlock pindex) :=
  ((sameLinks_clearFailed tree _).trans (sameLinks_insertCandidates _ _)).trans
    (sameLinks_clearFailed _ _)

/-- An entry keeps its status unless it is treated by one of the loops, which clear its
flags. -/
theorem nStatus_reconsiderBlock (tree : BlockTree) (pindex it : BlockPath) :
    ((tree.reconsiderBlock pindex).entry it).nStatus =
      if tree.reconsidered pindex it ∨ (it ≠ [] ∧ it <:+ pindex) then
        (tree.entry it).nStatus.clearFailed
      else (tree.entry it).nStatus := by
  simp only [reconsiderBlock, nStatus_clearFailed]
  change (if (it != [] && it.isSuffixOf pindex) = true then
      ((tree.clearFailed (tree.reconsidered pindex)).entry it).nStatus.clearFailed
    else ((tree.clearFailed (tree.reconsidered pindex)).entry it).nStatus) = _
  rw [nStatus_clearFailed]
  by_cases again : tree.reconsidered pindex it = true <;>
    by_cases below : it ≠ [] ∧ it <:+ pindex <;>
    simp_all [BlockStatus.clearFailed]

/-- An entry that the first loop treats becomes a candidate if it is linked and better
than the tip. -/
theorem mem_reconsiderBlock (tree : BlockTree) (pindex it : BlockPath) :
    it ∈ (tree.reconsiderBlock pindex).setBlockIndexCandidates ↔
      it ∈ tree.setBlockIndexCandidates ∨
        it ∈ tree.mapBlockIndex ∧ tree.reconsidered pindex it = true ∧
          blockValidTransactions ≤ (tree.entry it).nStatus.validity ∧
            (tree.entry it).nChainTx ≠ 0 ∧
              tree.workKey tree.chainActive < tree.workKey it := by
  have sameLinks := sameLinks_clearFailed tree (tree.reconsidered pindex)
  change it ∈ ((tree.clearFailed (tree.reconsidered pindex)).insertCandidates
    _).setBlockIndexCandidates ↔ _
  rw [mem_insertCandidates]
  refine or_congr Iff.rfl (and_congr_right fun _ => ?_)
  by_cases again : tree.reconsidered pindex it = true
  · simp only [again, Bool.true_and, Bool.and_eq_true, valueComp_iff, sameLinks.workKey,
      sameLinks.nChainTx, bne_iff_ne, true_and, BlockStatus.isValid, nStatus_clearFailed,
      if_true, BlockStatus.clearFailed, BlockStatus.failed]
    simp only [Bool.or_self, Bool.not_false, true_and, decide_eq_true_eq, and_assoc]
    exact Iff.rfl
  · simp [again]

namespace IndexInvariant

theorem reconsiderBlock
    (invariant : tree.IndexInvariant)
    (known : pindex ∈ tree.mapBlockIndex)
    (reconsiderable : Reconsiderable tree pindex) :
    (tree.reconsiderBlock pindex).IndexInvariant := by
  have notNull := invariant.named known
  have sameLinks := sameLinks_reconsiderBlock tree pindex
  refine
    { sameLinks.wellFormed invariant.toWellFormed ?_ invariant.tipKnown invariant.tipLinked with
      backed := ?_, activeValid := ?_, ready := ?_ }
  · intro other candidate
    rcases (mem_reconsiderBlock _ _ _).mp candidate with before | ⟨known, -, -, linked, -⟩
    · exact invariant.candidates before
    · exact ⟨known, linked⟩
  · intro other otherKnown marked
    rw [nStatus_reconsiderBlock] at marked
    split_ifs at marked with treated
    · cases marked
    · rw [not_or, reconsidered_iff notNull] at treated
      have invalid : (tree.entry other).nStatus.isValid blockValidTransactions = false := by
        simp [BlockStatus.isValid, BlockStatus.failed, marked]
      have notBelow : ¬ other <:+ pindex := fun below =>
        treated.2 ⟨invariant.named otherKnown, below⟩
      have notAbove : ¬ pindex <:+ other := fun above =>
        treated.1 ⟨otherKnown, invalid, above⟩
      obtain ⟨ancestor, ancestorKnown, isAncestor, failedValid, keeps⟩ :=
        reconsiderable.otherBranches other otherKnown marked notBelow notAbove
      refine ⟨ancestor, ancestorKnown, isAncestor, ?_⟩
      rw [nStatus_reconsiderBlock, if_neg]
      · exact failedValid
      · rw [not_or, reconsidered_iff notNull]
        exact ⟨fun again => notAbove (again.2.2.trans isAncestor), fun below => keeps below.2⟩
  · intro ancestor ancestorKnown isAncestor
    have valid := invariant.activeValid ancestorKnown isAncestor
    rw [nStatus_reconsiderBlock]
    split_ifs
    · rfl
    · exact valid
  · intro other otherKnown valid linked notWorse
    rw [sameLinks.nChainTx] at linked
    rw [sameLinks.workKey, sameLinks.workKey] at notWorse
    rw [mem_reconsiderBlock]
    cases failed : (tree.entry other).nStatus.failed with
    | false => exact .inl (invariant.ready otherKnown failed linked notWorse)
    | true =>
      have invalid : (tree.entry other).nStatus.isValid blockValidTransactions = false := by
        simp [BlockStatus.isValid, failed]
      have treated : tree.reconsidered pindex other ∨ (other ≠ [] ∧ other <:+ pindex) := by
        by_contra untreated
        rw [nStatus_reconsiderBlock, if_neg untreated] at valid
        exact Bool.false_ne_true (valid.symm.trans failed)
      by_cases above : pindex <:+ other
      · -- The tip is unflagged, so that an entry as good as it that is flagged is better.
        have notTip : tree.workKey tree.chainActive ≠ tree.workKey other := by
          intro sameKey
          have isTip := invariant.eq_of_workKey_eq invariant.tipKnown otherKnown sameKey
          have tipValid := invariant.activeValid invariant.tipKnown (List.suffix_refl _)
          rw [isTip] at tipValid
          exact Bool.false_ne_true (tipValid.symm.trans failed)
        exact .inr ⟨otherKnown, (reconsidered_iff notNull other).mpr ⟨otherKnown, invalid, above⟩,
          (invariant.hasData otherKnown linked).2, linked, notWorse.lt_of_ne notTip⟩
      · have below : other <:+ pindex := by
          rcases treated with again | below
          · exact absurd ((reconsidered_iff notNull other).mp again).2.2 above
          · exact below.2
        have notSelf : other ≠ pindex := by
          rintro rfl
          exact above (List.suffix_refl other)
        exact .inl (reconsiderable.ancestors other otherKnown below notSelf failed linked
          ((valueComp_eq_false_iff _ _ _).mpr notWorse))

end IndexInvariant

end BlockTree

end ColossusCoin
