import ColossusCoin.Chain.Anchor
import ColossusCoin.Chain.IndexRuns

/-!
# Activating the best chain

The loops of `ActivateBestChain` and `ActivateBestChainStep` over the block index.  What
`ConnectTip` and `DisconnectTip` do to the coins, the memory pool and the wallets is left
to an environment that says how each call ends.
-/

namespace ColossusCoin

/-- How `ConnectTip` ends.  An invalid block may be one that was corrupted on its way. -/
inductive ConnectResult
  | connected
  | invalid (fCorruptionPossible : Bool)
  | systemError
  deriving DecidableEq

/-- How the calls end that `ActivateBestChain` makes: the result of the n-th `ConnectTip`
on a block, the tips that `DisconnectTip` can disconnect, and `FlushStateToDisk`. -/
structure ActivationEnv where
  connects : Nat → BlockPath → ConnectResult
  disconnects : BlockPath → Bool
  flushes : Bool

/-- The block index, and how often `ConnectTip` was called. -/
structure Activation where
  tree : BlockTree
  nCalls : Nat

/-- How the loop over the blocks to connect ends. -/
inductive BatchEnd
  | finished
  | better
  | invalidFound
  | systemError
  deriving DecidableEq

namespace BlockTree

/-- `chainActive.FindFork`, `[]` for no entry. -/
def findFork (tree : BlockTree) : BlockPath → BlockPath
  | [] => []
  | hash :: pprev =>
    if tree.chainContains (hash :: pprev) then hash :: pprev else tree.findFork pprev

/-- Disconnect active blocks which are no longer in the best chain.  The genesis block
has no undo data, so that disconnecting it fails. -/
def disconnectToFork (disconnects : BlockPath → Bool) (pindexFork : BlockPath) :
    BlockPath → BlockTree → Bool × BlockTree
  | [], tree => (true, tree)
  | hash :: pprev, tree =>
    if hash :: pprev = pindexFork then (true, tree)
    else if pprev != [] && disconnects (hash :: pprev) then
      disconnectToFork disconnects pindexFork pprev { tree with chainActive := pprev }
    else (false, tree)

end BlockTree

/-- `vpindexToConnect` in the order in which it is filled: from an entry down to the
one with `nLength` entries on its way to genesis, which is left out. -/
def vpindexToConnect (nLength : Nat) : BlockPath → List BlockPath
  | [] => []
  | hash :: pprev =>
    if (hash :: pprev).length = nLength then []
    else (hash :: pprev) :: vpindexToConnect nLength pprev

namespace Activation

/-- `ConnectTip`, with `InvalidBlockFound` where the block is invalid and
`PruneBlockIndexCandidates` where it is connected. -/
def connectTip (env : ActivationEnv) (activation : Activation) (pindexConnect : BlockPath) :
    ConnectResult × Activation :=
  let result := env.connects activation.nCalls pindexConnect
  (result,
    { tree :=
        match result with
        | .connected =>
          (activation.tree.connectedTip pindexConnect).pruneBlockIndexCandidates
        | .invalid fCorruptionPossible =>
          activation.tree.invalidBlockFound pindexConnect fCorruptionPossible
        | .systemError => activation.tree
      nCalls := activation.nCalls + 1 })

/-- Connect new blocks, until one fails or the tip has more work than the old one. -/
def connectBlocks (env : ActivationEnv) (pindexOldTip : BlockPath) :
    List BlockPath → Activation → BatchEnd × Activation
  | [], activation => (.finished, activation)
  | pindexConnect :: rest, activation =>
    match activation.connectTip env pindexConnect with
    | (.invalid _, next) => (.invalidFound, next)
    | (.systemError, next) => (.systemError, next)
    | (.connected, next) =>
      if pindexOldTip = [] ∨ (next.tree.entry pindexOldTip).nChainWork <
          (next.tree.entry next.tree.chainActive).nChainWork then (.better, next)
      else connectBlocks env pindexOldTip rest next

/-- The loop over batches of at most 32 blocks; `nLength` is `nHeight + 1`, and grows in
every round. -/
def connectLoop (env : ActivationEnv) (pindexOldTip pindexMostWork : BlockPath) :
    Nat → Nat → Activation → BatchEnd × Activation
  | 0, _, activation => (.finished, activation)
  | fuel + 1, nLength, activation =>
    if nLength = pindexMostWork.length then (.finished, activation)
    else
      let nTargetLength := min (nLength + 32) pindexMostWork.length
      let pindexIter := pindexMostWork.drop (pindexMostWork.length - nTargetLength)
      match connectBlocks env pindexOldTip (vpindexToConnect nLength pindexIter).reverse
          activation with
      | (.finished, next) =>
        connectLoop env pindexOldTip pindexMostWork fuel nTargetLength next
      | ended => ended

def activateBestChainStep (env : ActivationEnv) (activation : Activation)
    (pindexMostWork : BlockPath) : Bool × Activation :=
  let pindexOldTip := activation.tree.chainActive
  let pindexFork := activation.tree.findFork pindexMostWork
  match activation.tree.disconnectToFork env.disconnects pindexFork pindexOldTip with
  | (false, tree) => (false, { activation with tree := tree })
  | (true, tree) =>
    match connectLoop env pindexOldTip pindexMostWork pindexMostWork.length
        pindexFork.length { activation with tree := tree } with
    | (.systemError, next) => (false, next)
    | (_, next) => (true, next)

/-- `ActivateBestChain`, with its return value; `none` where an assertion fails or the
rounds do not end in time. -/
def activateBestChain (env : ActivationEnv) :
    Nat → Activation → Option (Bool × Activation)
  | 0, _ => none
  | fuel + 1, activation =>
    match activation.tree.findMostWorkChain with
    | none => none
    | some (none, tree) => some (true, { activation with tree := tree })
    | some (some pindexMostWork, tree) =>
      if pindexMostWork = tree.chainActive then
        some (true, { activation with tree := tree })
      else
        match activateBestChainStep env { activation with tree := tree }
            pindexMostWork with
        | (false, next) => some (false, next)
        | (true, next) =>
          if pindexMostWork = next.tree.chainActive then some (env.flushes, next)
          else activateBestChain env fuel next

end Activation

/-!
## The tip that `ActivateBestChain` leaves

From an index that passes `CheckBlockIndex`, the loop ends at a usable tip with the most
work of all usable entries, as long as blocks that were connected once are connected
again.
-/

namespace BlockTree

/-- The entries are the blocks between a tip and one of its descendants, lowest
first. -/
inductive ConnectPath (pindexTip : BlockPath) : List BlockPath → BlockPath → Prop
  | here : ConnectPath pindexTip [] pindexTip
  | up {entries : List BlockPath} {hash : Uint256} {pprev : BlockPath} :
      ConnectPath pindexTip entries pprev →
        ConnectPath pindexTip (entries ++ [hash :: pprev]) (hash :: pprev)

theorem ConnectPath.last_of_nil
    (path : ConnectPath pindexTip [] pindexLast) :
    pindexLast = pindexTip := by
  generalize isEntries : ([] : List BlockPath) = entries at path
  cases path with
  | here => rfl
  | up _ => simp at isEntries

/-- A way up starts with a child of the tip. -/
theorem ConnectPath.first
    {pindexTip pindexLast first : BlockPath}
    (path : ConnectPath pindexTip (first :: rest) pindexLast) :
    first.tail = pindexTip ∧ ConnectPath first rest pindexLast := by
  generalize isEntries : first :: rest = entries at path
  induction path generalizing rest with
  | here => cases isEntries
  | @up entries hash pprev path ih =>
    cases entries with
    | nil =>
      rw [List.nil_append, List.cons.injEq] at isEntries
      obtain ⟨rfl, rfl⟩ := isEntries
      exact ⟨path.last_of_nil, .here⟩
    | cons lower between =>
      rw [List.cons_append, List.cons.injEq] at isEntries
      obtain ⟨rfl, rfl⟩ := isEntries
      obtain ⟨overTip, above⟩ := ih rfl
      exact ⟨overTip, above.up⟩

theorem ConnectPath.of_vpindexToConnect
    (pindexIter : BlockPath)
    (enough : nLength ≤ pindexIter.length) :
    ConnectPath (pindexIter.drop (pindexIter.length - nLength))
      (vpindexToConnect nLength pindexIter).reverse pindexIter := by
  induction pindexIter with
  | nil => simpa [vpindexToConnect] using ConnectPath.here
  | cons hash pprev ih =>
    rw [vpindexToConnect]
    split_ifs with reached
    · simpa [← reached] using ConnectPath.here
    · rw [List.length_cons] at enough reached
      have below : nLength ≤ pprev.length := by omega
      rw [List.length_cons, Nat.succ_sub below, List.drop_succ_cons, List.reverse_cons]
      exact (ih below).up

theorem mem_vpindexToConnect
    (pindexIter : BlockPath)
    (isEntry : pindex ∈ vpindexToConnect nLength pindexIter) :
    pindex ≠ [] ∧ pindex <:+ pindexIter := by
  induction pindexIter with
  | nil => cases isEntry
  | cons hash pprev ih =>
    rw [vpindexToConnect] at isEntry
    split_ifs at isEntry with reached
    · cases isEntry
    · rcases List.mem_cons.mp isEntry with rfl | below
      · exact ⟨List.cons_ne_nil hash pprev, List.suffix_refl _⟩
      · obtain ⟨notNull, isAncestor⟩ := ih below
        exact ⟨notNull, isAncestor.trans (List.suffix_cons hash pprev)⟩

theorem findFork_spec
    (tree : BlockTree)
    (pindexMostWork : BlockPath) :
    tree.findFork pindexMostWork <:+ pindexMostWork ∧
      tree.findFork pindexMostWork <:+ tree.chainActive := by
  induction pindexMostWork with
  | nil => simp [findFork]
  | cons hash pprev ih =>
    rw [findFork]
    split_ifs with contained
    · have active : hash :: pprev <:+ tree.chainActive := by
        simpa [chainContains] using contained
      exact ⟨List.suffix_refl _, active⟩
    · exact ⟨ih.1.trans (List.suffix_cons hash pprev), ih.2⟩

theorem disconnectToFork_spec
    (pindexTip : BlockPath) :
    ∀ {tree next : BlockTree},
      pindexTip ≠ [] → tree.chainActive = pindexTip →
        disconnectToFork disconnects pindexFork pindexTip tree = (true, next) →
          pindexFork ≠ [] ∧ next = { tree with chainActive := pindexFork } := by
  induction pindexTip with
  | nil => exact fun notNull => absurd rfl notNull
  | cons hash pprev ih =>
    intro tree next _ isTip disconnected
    rw [disconnectToFork] at disconnected
    split_ifs at disconnected with reached succeeds
    · cases disconnected
      refine ⟨reached ▸ List.cons_ne_nil hash pprev, ?_⟩
      rw [← reached, ← isTip]
    · simp only [Bool.and_eq_true, bne_iff_ne] at succeeds
      exact @ih { tree with chainActive := pprev } next succeeds.1 rfl disconnected
    · cases disconnected

/-- Removing candidates makes progress, and no further block fails. -/
theorem IndexInvariant.keptByRemoval_progress (tree : BlockTree) :
    KeptByRemoval fun current => current.IndexInvariant ∧ Progress tree current ∧
      ∀ pindex, (current.entry pindex).nStatus.failedValid =
        (tree.entry pindex).nStatus.failedValid where
  flagsBacked holds := holds.1.toFlagsBacked
  markFailedChild := fun ⟨holds, progress, same⟩ known failed isAncestor notActive => by
    refine ⟨keptByRemoval.markFailedChild holds known failed isAncestor notActive,
      progress.trans (.mark _ _ (fun _ => rfl) (fun _ => le_rfl) fun _ failed => failed),
      fun other => ?_⟩
    rw [← same, eraseCandidate, nStatus_modifyStatus]
    split_ifs with marked
    · rw [marked]
      rfl
    · rfl
  eraseFailed := fun ⟨holds, progress, same⟩ _ failed =>
    ⟨holds.eraseFailed failed, progress.trans (.of_entries rfl rfl rfl), same⟩

/-- In every careful run `FindMostWorkChain` returns a usable entry, and no entry that has its
transactions and whose chain has not failed comes before it. -/
theorem findMostWorkChain_best
    {start tree : BlockTree}
    {trace : List IndexAction}
    (invariant : start.IndexInvariant)
    (run : carefulIndexSystem.Run start trace tree) :
    ∃ pindexNew next, tree.findMostWorkChain = some (some pindexNew, next) ∧
      tree.Usable pindexNew ∧
      ∀ pindex ∈ tree.mapBlockIndex, ¬ tree.HasFailedAncestor pindex →
        (tree.entry pindex).nChainTx ≠ 0 → tree.workKey pindex ≤ tree.workKey pindexNew := by
  have atEnd : tree.IndexInvariant :=
    run.invariant invariant fun atState step => atState.step step
  obtain ⟨⟨best, next⟩, found⟩ := Option.isSome_iff_exists.mp atEnd.findMostWorkChain_isSome
  obtain ⟨⟨holds, progress, same⟩, isBest, usable⟩ :=
    (IndexInvariant.keptByRemoval_progress tree).findMostWorkLoop _
      ⟨atEnd, .refl tree, fun _ => rfl⟩ found
  have isTip := holds.ready holds.tipKnown (holds.activeValid holds.tipKnown (List.suffix_refl _))
    holds.tipLinked le_rfl
  cases best with
  | none => simp [List.argmax_eq_none.mp isBest] at isTip
  | some pindexNew =>
    have candidate := holds.candidates (List.argmax_mem isBest)
    refine ⟨pindexNew, next, found, progress.usable ⟨candidate.1, ?_, ?_⟩, ?_⟩
    · rintro ⟨ancestor, known, isAncestor, failedValid⟩
      have valid := valid_of_testCandidate holds.toFlagsBacked candidate.1 (usable pindexNew rfl)
        (holds.named known) isAncestor
      simp [BlockStatus.failed, failedValid] at valid
    · intro ancestor known isAncestor
      exact (holds.hasData known (holds.ancestor_linked candidate.1 candidate.2
        (holds.named known) isAncestor)).1
    · intro pindex known notFailed linked
      rw [← progress.nChainTx] at linked
      rw [← progress.mapBlockIndex] at known
      rw [← progress.workKey, ← progress.workKey]
      rcases le_total (next.workKey next.chainActive) (next.workKey pindex) with ahead | behind
      · refine List.le_of_mem_argmax (holds.ready known ?_ linked ahead) isBest
        refine Bool.eq_false_iff.mpr fun failed => notFailed ?_
        obtain ⟨ancestor, ancestorKnown, isAncestor, failedValid⟩ :=
          holds.hasFailedAncestor_of_failed known failed
        exact ⟨ancestor, progress.mapBlockIndex ▸ ancestorKnown, isAncestor,
          (same ancestor).symm.trans failedValid⟩
      · exact behind.trans (List.le_of_mem_argmax isTip isBest)

/-- In the run that invalidates block 2, the tip is the entry that is found. -/
theorem findMostWorkChain_best_marked :
    ∃ pindexNew next, markedTree.findMostWorkChain = some (some pindexNew, next) ∧
      markedTree.Usable pindexNew ∧
      ∀ pindex ∈ markedTree.mapBlockIndex, ¬ markedTree.HasFailedAncestor pindex →
        (markedTree.entry pindex).nChainTx ≠ 0 →
          markedTree.workKey pindex ≤ markedTree.workKey pindexNew :=
  findMostWorkChain_best (genesisTree_invariant (easyHeader 1 0) 0 Nat.one_ne_zero) markedTree_run

end BlockTree

/-! ## The loops -/

namespace Activation

open BlockTree

/-- The block was active at the start, or one of the calls of `ConnectTip` before the
n-th connected it. -/
def ConnectedBefore (env : ActivationEnv) (start : Activation) (n : Nat)
    (pindex : BlockPath) : Prop :=
  pindex <:+ start.tree.chainActive ∨
    ∃ m, start.nCalls ≤ m ∧ m < n ∧ env.connects m pindex = .connected

/-- An invalid block is marked: it was not corrupted on its way. -/
def MarksInvalid (env : ActivationEnv) (start : Activation) : Prop :=
  ∀ pindex ∈ start.tree.mapBlockIndex, ∀ n, env.connects n pindex ≠ .invalid true

/-- Blocks that were connected once are not found invalid when they are connected
again. -/
def ReconnectsValid (env : ActivationEnv) (start : Activation) : Prop :=
  ∀ pindex ∈ start.tree.mapBlockIndex, ∀ n, ConnectedBefore env start n pindex →
    ∀ fCorruptionPossible, env.connects n pindex ≠ .invalid fCorruptionPossible

/-- The invariant of the loops: what is connected so far is settled. -/
structure Sound (env : ActivationEnv) (start activation : Activation) : Prop where
  activating : Activating (ConnectedBefore env start activation.nCalls) activation.tree
  progress : Progress start.tree activation.tree
  later : start.nCalls ≤ activation.nCalls

namespace Sound

/-- Another index under the same number of calls. -/
theorem withTree
    (sound : Sound env start activation)
    {tree : BlockTree}
    (activating : Activating (ConnectedBefore env start activation.nCalls) tree)
    (progress : Progress activation.tree tree) :
    Sound env start { activation with tree := tree } :=
  ⟨activating, sound.progress.trans progress, sound.later⟩

theorem connectTip
    (sound : Sound env start activation)
    (marks : MarksInvalid env start)
    (reconnects : ReconnectsValid env start)
    (known : pindex ∈ activation.tree.mapBlockIndex)
    (overTip : pindex.tail = activation.tree.chainActive)
    (valid : (activation.tree.entry pindex).nStatus.failed = false)
    (linked : (activation.tree.entry pindex).nChainTx ≠ 0) :
    Sound env start (activation.connectTip env pindex).2 ∧
      Progress activation.tree (activation.connectTip env pindex).2.tree := by
  have activating := sound.activating
  have startKnown : pindex ∈ start.tree.mapBlockIndex := sound.progress.mapBlockIndex ▸ known
  have wider (other : BlockPath)
      (before : ConnectedBefore env start activation.nCalls other) :
      ConnectedBefore env start (activation.nCalls + 1) other := by
    refine before.imp_right ?_
    rintro ⟨m, afterStart, earlier, connected⟩
    exact ⟨m, afterStart, Nat.lt_succ_of_lt earlier, connected⟩
  have later : start.nCalls ≤ activation.nCalls + 1 := Nat.le_succ_of_le sound.later
  rw [Activation.connectTip]
  cases result : env.connects activation.nCalls pindex with
  | connected =>
    have progress := Progress.connectTip activation.tree pindex
    refine ⟨⟨?_, sound.progress.trans progress, later⟩, progress⟩
    exact (activating.mono wider).connectTip known overTip valid linked
      (.inr ⟨activation.nCalls, sound.later, Nat.lt_succ_self _, result⟩)
  | invalid fCorruptionPossible =>
    cases fCorruptionPossible with
    | true => exact absurd result (marks pindex startKnown activation.nCalls)
    | false =>
      have notActive : ¬ pindex <:+ activation.tree.chainActive := by
        intro isAncestor
        have notLonger := isAncestor.length_le
        have positive := List.length_pos_of_ne_nil (activating.named known)
        rw [← overTip, List.length_tail] at notLonger
        omega
      have notSettled : ¬ ConnectedBefore env start activation.nCalls pindex :=
        fun before => reconnects pindex startKnown activation.nCalls before false result
      have progress : Progress activation.tree (activation.tree.invalidBlockFound pindex false) :=
        .mark activation.tree pindex (fun _ => rfl) (fun _ => le_rfl) fun _ _ => rfl
      exact ⟨⟨(activating.invalidBlockFound known notActive notSettled).mono wider,
        sound.progress.trans progress, later⟩, progress⟩
  | systemError =>
    exact ⟨⟨activating.mono wider, sound.progress, later⟩, .refl _⟩

/-- Connecting blocks on a way up from the tip; if all are connected, the last one is the
tip. -/
theorem connectBlocks
    (marks : MarksInvalid env start)
    (reconnects : ReconnectsValid env start)
    (pindexOldTip : BlockPath)
    (entries : List BlockPath) :
    ∀ {activation : Activation},
      Sound env start activation →
        ConnectPath activation.tree.chainActive entries pindexLast →
          (∀ pindex ∈ entries, pindex ∈ activation.tree.mapBlockIndex ∧
            (activation.tree.entry pindex).nStatus.failed = false ∧
            (activation.tree.entry pindex).nChainTx ≠ 0) →
            ∀ {ended next}, activation.connectBlocks env pindexOldTip entries =
              (ended, next) →
                Sound env start next ∧ Progress activation.tree next.tree ∧
                  (ended = .finished → next.tree.chainActive = pindexLast ∧
                    ∀ pindex, (next.tree.entry pindex).nStatus.failed =
                      (activation.tree.entry pindex).nStatus.failed) := by
  induction entries with
  | nil =>
    intro activation sound path _ ended next connected
    cases connected
    exact ⟨sound, .refl _, fun _ => ⟨path.last_of_nil.symm, fun _ => rfl⟩⟩
  | cons pindexConnect rest ih =>
    intro activation sound path usable ended next connected
    obtain ⟨overTip, above⟩ := path.first
    obtain ⟨known, valid, linked⟩ := usable pindexConnect List.mem_cons_self
    obtain ⟨soundNext, progress⟩ :=
      sound.connectTip marks reconnects known overTip valid linked
    rw [Activation.connectBlocks] at connected
    cases result : env.connects activation.nCalls pindexConnect with
    | systemError =>
      simp only [Activation.connectTip, result] at connected soundNext progress
      cases connected
      exact ⟨soundNext, progress, fun finished => by cases finished⟩
    | invalid fCorruptionPossible =>
      simp only [Activation.connectTip, result] at connected soundNext progress
      cases connected
      exact ⟨soundNext, progress, fun finished => by cases finished⟩
    | connected =>
      simp only [Activation.connectTip, result] at connected soundNext progress
      split_ifs at connected with better
      · cases connected
        exact ⟨soundNext, progress, fun finished => by cases finished⟩
      · have sameFlags (pindex : BlockPath) :=
          failed_connectedTip activation.tree pindexConnect pindex
        obtain ⟨soundEnd, progressEnd, atEnd⟩ :=
          ih soundNext above
            (by
              intro pindex isEntry
              obtain ⟨known, valid, linked⟩ :=
                usable pindex (List.mem_cons_of_mem _ isEntry)
              exact ⟨known, (sameFlags pindex).trans valid, by rwa [progress.nChainTx]⟩) connected
        refine ⟨soundEnd, progress.trans progressEnd, fun finished => ?_⟩
        obtain ⟨isLast, flags⟩ := atEnd finished
        exact ⟨isLast, fun pindex => (flags pindex).trans (sameFlags pindex)⟩

theorem connectLoop
    (marks : MarksInvalid env start)
    (reconnects : ReconnectsValid env start)
    (pindexOldTip pindexMostWork : BlockPath) :
    ∀ (fuel nLength : Nat) {activation : Activation},
      Sound env start activation → nLength ≤ pindexMostWork.length →
        activation.tree.chainActive =
          pindexMostWork.drop (pindexMostWork.length - nLength) →
          (∀ pindex, pindex ≠ [] → pindex <:+ pindexMostWork →
            pindex ∈ activation.tree.mapBlockIndex ∧
            (activation.tree.entry pindex).nStatus.failed = false ∧
            (activation.tree.entry pindex).nChainTx ≠ 0) →
            ∀ {ended next}, activation.connectLoop env pindexOldTip pindexMostWork fuel
              nLength = (ended, next) →
                Sound env start next ∧ Progress activation.tree next.tree
  | 0, _, _, sound, _, _, _, _, _, connected => by
    cases connected
    exact ⟨sound, .refl _⟩
  | fuel + 1, nLength, activation, sound, enough, isTip, usable, ended, next, connected => by
    rw [Activation.connectLoop] at connected
    split_ifs at connected with reached
    · cases connected
      exact ⟨sound, .refl _⟩
    · dsimp only at connected
      generalize isTarget : min (nLength + 32) pindexMostWork.length = nTargetLength at connected
      generalize isIter : pindexMostWork.drop (pindexMostWork.length - nTargetLength) =
        pindexIter at connected
      have iterLength : pindexIter.length = nTargetLength := by
        rw [← isIter, List.length_drop]
        omega
      have iterAncestor : pindexIter <:+ pindexMostWork := isIter ▸ List.drop_suffix _ _
      have path := ConnectPath.of_vpindexToConnect pindexIter
        (show nLength ≤ pindexIter.length by omega)
      have below : pindexIter.drop (pindexIter.length - nLength) = activation.tree.chainActive := by
        rw [isTip, iterLength, ← isIter, List.drop_drop]
        congr 1
        omega
      rw [below] at path
      generalize isBatch : activation.connectBlocks env pindexOldTip
        (vpindexToConnect nLength pindexIter).reverse = batch at connected
      obtain ⟨batchEnd, middle⟩ := batch
      have usableEntries (pindex : BlockPath)
          (isEntry : pindex ∈ (vpindexToConnect nLength pindexIter).reverse) :
          pindex ∈ activation.tree.mapBlockIndex ∧
            (activation.tree.entry pindex).nStatus.failed = false ∧
            (activation.tree.entry pindex).nChainTx ≠ 0 := by
        obtain ⟨notNull, isAncestor⟩ :=
          mem_vpindexToConnect pindexIter (List.mem_reverse.mp isEntry)
        exact usable pindex notNull (isAncestor.trans iterAncestor)
      obtain ⟨soundMiddle, progress, atEnd⟩ :=
        connectBlocks marks reconnects pindexOldTip _ sound path usableEntries isBatch
      cases batchEnd with
      | finished =>
        obtain ⟨isLast, flags⟩ := atEnd rfl
        obtain ⟨soundEnd, progressEnd⟩ :=
          connectLoop marks reconnects pindexOldTip pindexMostWork fuel nTargetLength
            soundMiddle (by omega) (isLast.trans isIter.symm)
            (by
              intro pindex notNull isAncestor
              obtain ⟨known, valid, linked⟩ := usable pindex notNull isAncestor
              exact ⟨progress.mapBlockIndex ▸ known, (flags pindex).trans valid,
                by rwa [progress.nChainTx]⟩)
            connected
        exact ⟨soundEnd, progress.trans progressEnd⟩
      | better =>
        cases connected
        exact ⟨soundMiddle, progress⟩
      | invalidFound =>
        cases connected
        exact ⟨soundMiddle, progress⟩
      | systemError =>
        cases connected
        exact ⟨soundMiddle, progress⟩

/-- `ActivateBestChainStep` towards a usable entry keeps the invariant where it
succeeds. -/
theorem activateBestChainStep
    (marks : MarksInvalid env start)
    (reconnects : ReconnectsValid env start)
    (sound : Sound env start activation)
    (usable : ∀ pindex, pindex ≠ [] → pindex <:+ pindexMostWork →
      pindex ∈ activation.tree.mapBlockIndex ∧
      (activation.tree.entry pindex).nStatus.failed = false ∧
      (activation.tree.entry pindex).nChainTx ≠ 0)
    (stepped : activation.activateBestChainStep env pindexMostWork = (true, next)) :
    Sound env start next ∧ Progress activation.tree next.tree := by
  have activating := sound.activating
  have ⟨forkAncestor, forkActive⟩ := findFork_spec activation.tree pindexMostWork
  rw [Activation.activateBestChainStep] at stepped
  generalize isDisconnected : activation.tree.disconnectToFork env.disconnects
    (activation.tree.findFork pindexMostWork) activation.tree.chainActive = outcome
    at stepped
  obtain ⟨succeeded, tree⟩ := outcome
  cases succeeded with
  | false => cases stepped
  | true =>
    obtain ⟨notNull, isTree⟩ := disconnectToFork_spec activation.tree.chainActive
      (activating.named activating.tipKnown) rfl isDisconnected
    have progress : Progress activation.tree tree := isTree ▸ .of_entries rfl rfl rfl
    have soundFork : Sound env start { activation with tree := tree } :=
      sound.withTree (isTree ▸ activating.disconnect notNull forkActive) progress
    have isTip : tree.chainActive = pindexMostWork.drop
        (pindexMostWork.length - (activation.tree.findFork pindexMostWork).length) := by
      rw [isTree]
      exact List.suffix_iff_eq_drop.mp forkAncestor
    dsimp only at stepped
    generalize isLoop : Activation.connectLoop env activation.tree.chainActive pindexMostWork
      pindexMostWork.length (activation.tree.findFork pindexMostWork).length
      { activation with tree := tree } = outcome at stepped
    obtain ⟨ended, final⟩ := outcome
    obtain ⟨soundEnd, progressEnd⟩ :=
      connectLoop marks reconnects activation.tree.chainActive pindexMostWork _ _
        soundFork forkAncestor.length_le isTip
        (by
          intro pindex notNull isAncestor
          obtain ⟨known, valid, linked⟩ := usable pindex notNull isAncestor
          rw [isTree]
          exact ⟨known, valid, linked⟩) isLoop
    cases ended <;> cases stepped <;> exact ⟨soundEnd, progress.trans progressEnd⟩

/-- Where `ActivateBestChain` returns true, the tip is linked and unflagged, and no usable
entry is better. -/
theorem activateBestChain
    (marks : MarksInvalid env start)
    (reconnects : ReconnectsValid env start) :
    ∀ (fuel : Nat) {activation final : Activation},
      Sound env start activation →
        activation.activateBestChain env fuel = some (true, final) →
          Sound env start final ∧
            ∀ {other}, other ∈ final.tree.mapBlockIndex →
              ¬ final.tree.HasFailedAncestor other →
                (final.tree.entry other).nChainTx ≠ 0 →
                  final.tree.workKey other ≤ final.tree.workKey final.tree.chainActive
  | 0, _, _, _, returned => by cases returned
  | fuel + 1, activation, final, sound, returned => by
    rw [Activation.activateBestChain] at returned
    generalize isFound : activation.tree.findMostWorkChain = found at returned
    cases found with
    | none => cases returned
    | some found =>
      obtain ⟨best, tree⟩ := found
      obtain ⟨activating, progress, sameTip, pindexMostWork, rfl, candidate, valid,
        isBest⟩ := sound.activating.findMostWorkChain isFound
      have soundTree := sound.withTree activating progress
      dsimp only at returned
      split_ifs at returned with isTip
      · cases returned
        exact ⟨soundTree, isTip ▸ isBest⟩
      · have usable (pindex : BlockPath) (notNull : pindex ≠ [])
            (isAncestor : pindex <:+ pindexMostWork) :
            pindex ∈ tree.mapBlockIndex ∧
              (tree.entry pindex).nStatus.failed = false ∧
              (tree.entry pindex).nChainTx ≠ 0 := by
          have ⟨known, linked⟩ := activating.candidates candidate
          exact ⟨activating.ancestor_known known notNull isAncestor,
            valid notNull isAncestor,
            activating.ancestor_linked known linked notNull isAncestor⟩
        generalize isStep : Activation.activateBestChainStep env
          { activation with tree := tree } pindexMostWork = outcome at returned
        obtain ⟨succeeded, next⟩ := outcome
        cases succeeded with
        | false => cases returned
        | true =>
          obtain ⟨soundNext, progressNext⟩ :=
            activateBestChainStep marks reconnects soundTree usable isStep
          dsimp only at returned
          split_ifs at returned with reached
          · obtain ⟨-, rfl⟩ := Prod.mk.inj (Option.some.inj returned)
            refine ⟨soundNext, fun {other} known notFailed linked => ?_⟩
            rw [← reached, progressNext.workKey, progressNext.workKey]
            rw [progressNext.nChainTx] at linked
            exact isBest (progressNext.mapBlockIndex ▸ known)
              (fun failed => notFailed (progressNext.hasFailedAncestor failed)) linked
          · exact activateBestChain marks reconnects fuel soundNext returned

end Sound

theorem Sound.ofCheckBlockIndex
    (checked : start.tree.CheckBlockIndex)
    (activeValid : start.tree.ActiveChainValid) :
    Sound env start start := by
  have flagsBacked := checked.flagsBacked activeValid
  have belowTip {ancestor : BlockPath} (notNull : ancestor ≠ [])
      (isAncestor : ancestor <:+ start.tree.chainActive) :
      ConnectedBefore env start start.nCalls ancestor ∧
        (start.tree.entry ancestor).nStatus.failed = false :=
    ⟨.inl isAncestor,
      flagsBacked.activeValid
        (flagsBacked.ancestor_known flagsBacked.tipKnown notNull isAncestor) isAncestor⟩
  have linkedData {pindex : BlockPath} (known : pindex ∈ start.tree.mapBlockIndex)
      (linked : (start.tree.entry pindex).nChainTx ≠ 0) :
      start.tree.HasAllData pindex := by
    by_contra missing
    exact linked ((checked.linked pindex known).mp missing)
  have covered {other : BlockPath} (known : other ∈ start.tree.mapBlockIndex)
      (notFailed : ¬ start.tree.HasFailedAncestor other)
      (linked : (start.tree.entry other).nChainTx ≠ 0)
      (notWorse : start.tree.workKey start.tree.chainActive ≤ start.tree.workKey other) :
      other ∈ start.tree.setBlockIndexCandidates :=
    checked.candidate other known ((valueComp_eq_false_iff _ _ _).mpr notWorse)
      (linkedData known linked) notFailed
  refine ⟨{ flagsBacked with activeSettled := ?_, anchored := ?_ }, .refl _, le_rfl⟩
  · exact fun notNull isAncestor => (belowTip notNull isAncestor).1
  · refine ⟨start.tree.chainActive, ?_, fun notNull => belowTip notNull, ?_⟩
    · refine covered checked.tipKnown ?_ checked.tipLinked le_rfl
      rintro ⟨ancestor, known, isAncestor, failedValid⟩
      have valid := (belowTip (flagsBacked.named known) isAncestor).2
      simp [BlockStatus.failed, failedValid] at valid
    · intro other known notFailed linked notCandidate
      exact le_of_not_ge fun notWorse =>
        notCandidate (covered known notFailed linked notWorse)

end Activation

open Activation

/-- Block 2 is the tip; block 3 has the same work, but came later, and block 5 over block
4 has more. -/
def rivals : Activation where
  tree :=
    receiveChild (receiveChild (receiveChild
      ((receiveChild rootTree [1] 2 1).connectedTip [2, 1]).pruneBlockIndexCandidates
      [1] 3 2) [1] 4 3) [4, 1] 5 4
  nCalls := 0

theorem rivals_checked : rivals.tree.CheckBlockIndex where
  named := by decide
  parent := by decide
  allocated := by decide
  candidatesKnown := by decide
  tipKnown := by decide
  tipLinked := by decide
  genesis := by decide
  data := by decide
  transactions := by decide
  sequence := by decide
  linked := by decide
  work := by decide
  treeValid := by decide
  parentValid := by rintro nUpTo (rfl | rfl) <;> decide
  flags := by decide
  candidate := by decide
  noCandidate := by decide
  unlinked := by decide
  notUnlinked := by decide

/-- An environment where some blocks are found invalid whenever they are connected. -/
def findsInvalid (invalidBlocks : List BlockPath) : ActivationEnv where
  connects _ pindex := if invalidBlocks.contains pindex then .invalid false else .connected
  disconnects _ := true
  flushes := true

theorem findsInvalid_marks (invalidBlocks : List BlockPath) (start : Activation) :
    MarksInvalid (findsInvalid invalidBlocks) start := by
  intro pindex _ n
  simp only [findsInvalid]
  split_ifs <;> simp

end ColossusCoin
