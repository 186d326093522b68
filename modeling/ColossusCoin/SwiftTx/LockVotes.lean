import ColossusCoin.Library.System
import ColossusCoin.SwiftTx.Locks

/-!
# Votes of the locks

What the locks of a node hold after any run: votes that arrived and were valid then, each
once, and the height that some request selected.
-/

namespace ColossusCoin

/-- Runs of a node from one action to the next. -/
def swiftTxSystem : LabelledSystem SwiftTxState SwiftTxAction where
  Step state action next := next = action.apply state

/-- A vote arrived, and its masternode was ranked high enough then and had signed it. -/
def RankedIn (trace : List SwiftTxAction) (vote : CConsensusVote) : Prop :=
  ∃ env, SwiftTxAction.txlvote env vote ∈ trace ∧ env.votesValidly vote = true

/-- A request for a transaction arrived or was made, and selected a height. -/
def SelectedIn (trace : List SwiftTxAction) (txHash : Uint256) (nBlockHeight : Int) :
    Prop :=
  ∃ env tx,
    (SwiftTxAction.ix env tx ∈ trace ∨ SwiftTxAction.relayLockRequest env tx ∈ trace) ∧
      tx.hash = txHash ∧ env.lockHeight tx = some nBlockHeight

theorem RankedIn.mono
    (ranked : RankedIn past vote)
    (included : past ⊆ trace) :
    RankedIn trace vote := by
  obtain ⟨env, arrived, valid⟩ := ranked
  exact ⟨env, included arrived, valid⟩

theorem SelectedIn.mono
    (selected : SelectedIn past txHash nBlockHeight)
    (included : past ⊆ trace) :
    SelectedIn trace txHash nBlockHeight := by
  obtain ⟨env, tx, requested, named, computed⟩ := selected
  exact ⟨env, tx, requested.imp (included ·) (included ·), named, computed⟩

namespace SwiftTxState

/-- The votes of the lock of a transaction. -/
def votesFor (state : SwiftTxState) (txHash : Uint256) : List CConsensusVote :=
  ((state.mapTxLocks.get? txHash).map CTransactionLock.vecConsensusVotes).getD []

/-- The height of the lock of a transaction, 0 where it has none. -/
def heightFor (state : SwiftTxState) (txHash : Uint256) : Int :=
  ((state.mapTxLocks.get? txHash).map CTransactionLock.nBlockHeight).getD 0

theorem votesFor_eq
    {state : SwiftTxState}
    (found : state.mapTxLocks.get? txHash = some lock) :
    state.votesFor txHash = lock.vecConsensusVotes := by
  simp [votesFor, found]

theorem heightFor_eq
    {state : SwiftTxState}
    (found : state.mapTxLocks.get? txHash = some lock) :
    state.heightFor txHash = lock.nBlockHeight := by
  simp [heightFor, found]

theorem isComplete_iff (state : SwiftTxState) (txHash : Uint256) :
    state.isComplete txHash = true ↔
      state.heightFor txHash ≠ 0 ∧
        swiftTxSignaturesRequired ≤
          ((state.votesFor txHash).filter fun vote =>
            vote.nBlockHeight == state.heightFor txHash).length := by
  unfold isComplete votesFor heightFor
  cases state.mapTxLocks.get? txHash with
  | none => simp
  | some lock =>
    simp only [Option.map_some, Option.getD_some,
      CTransactionLock.countSignatures, CTransactionLock.countedVotes]
    split_ifs with noHeight
    · simp [noHeight, swiftTxSignaturesRequired]
    · simp [noHeight]

/-- An operation leaves the votes and the heights of all locks and forgets no vote. -/
structure SameLocks (before after : SwiftTxState) : Prop where
  keyed : ∀ txHash lock, after.mapTxLocks.get? txHash = some lock →
    ∃ old, before.mapTxLocks.get? txHash = some old ∧ lock.txHash = old.txHash
  votes : ∀ txHash, after.votesFor txHash = before.votesFor txHash
  heights : ∀ txHash, after.heightFor txHash = before.heightFor txHash
  known : ∀ hash, (before.mapTxLockVote hash).isSome → (after.mapTxLockVote hash).isSome

theorem SameLocks.of_mapTxLocks
    (same : after.mapTxLocks = before.mapTxLocks)
    (known : ∀ hash, (before.mapTxLockVote hash).isSome → (after.mapTxLockVote hash).isSome) :
    SameLocks before after where
  known := known
  keyed txHash lock found := ⟨lock, same ▸ found, rfl⟩
  votes txHash := by simp only [votesFor, same]
  heights txHash := by simp only [heightFor, same]

theorem SameLocks.trans
    (before : SameLocks first second)
    (after : SameLocks second third) :
    SameLocks first third where
  keyed txHash lock found := by
    obtain ⟨middle, foundMiddle, sameName⟩ := after.keyed txHash lock found
    obtain ⟨old, foundOld, oldName⟩ := before.keyed txHash middle foundMiddle
    exact ⟨old, foundOld, sameName.trans oldName⟩
  votes txHash := (after.votes txHash).trans (before.votes txHash)
  heights txHash := (after.heights txHash).trans (before.heights txHash)
  known hash known := after.known hash (before.known hash known)

theorem SameLocks.isComplete
    (same : SameLocks before after)
    (txHash : Uint256) :
    after.isComplete txHash = before.isComplete txHash := by
  rw [Bool.eq_iff_iff, isComplete_iff, isComplete_iff, same.votes, same.heights]

theorem expireLock_sameLocks
    (env : SwiftTxEnv) (state : SwiftTxState) (txHash : Uint256) :
    SameLocks state (state.expireLock env txHash) := by
  unfold expireLock
  cases found : state.mapTxLocks.get? txHash with
  | none => exact .of_mapTxLocks rfl fun _ known => known
  | some lock =>
    constructor
    · intro other changed foundOther
      rw [SortedMap.get?_insert] at foundOther
      split_ifs at foundOther with same
      · cases foundOther
        exact ⟨lock, same ▸ found, rfl⟩
      · exact ⟨changed, foundOther, rfl⟩
    · intro other
      by_cases same : other = txHash
      · simp [votesFor, same, found]
      · simp [votesFor, SortedMap.get?_insert, same]
    · intro other
      by_cases same : other = txHash
      · simp [heightFor, same, found]
      · simp [heightFor, SortedMap.get?_insert, same]
    · exact fun _ known => known

theorem checkForConflictingLocks_sameLocks
    (env : SwiftTxEnv) (state : SwiftTxState) (tx : CTransaction) :
    SameLocks state (state.checkForConflictingLocks env tx).2 := by
  unfold checkForConflictingLocks
  cases state.conflictingInput tx with
  | none => exact .of_mapTxLocks rfl fun _ known => known
  | some locked =>
    exact (expireLock_sameLocks env state tx.hash).trans (expireLock_sameLocks env _ locked)

/-- The node may add a vote of its own to the votes that are known. -/
theorem doConsensusVote_eq
    (env : SwiftTxEnv) (state : SwiftTxState) (tx : CTransaction) (nBlockHeight : Int) :
    ∃ votes : Uint256 → Option CConsensusVote,
      (∀ hash, (state.mapTxLockVote hash).isSome → (votes hash).isSome) ∧
        state.doConsensusVote env tx nBlockHeight = { state with mapTxLockVote := votes } := by
  have unchanged : ∃ votes,
      (∀ hash, (state.mapTxLockVote hash).isSome → (votes hash).isSome) ∧
        state = { state with mapTxLockVote := votes } :=
    ⟨state.mapTxLockVote, fun _ known => known, rfl⟩
  unfold doConsensusVote
  split
  · exact unchanged
  · dsimp only
    split_ifs
    · exact unchanged
    · split
      · exact unchanged
      · split_ifs
        · refine ⟨_, ?_, rfl⟩
          intro hash known
          rw [Function.update_apply]
          split_ifs
          · rfl
          · exact known
        · exact unchanged

theorem doConsensusVote_sameLocks
    (env : SwiftTxEnv) (state : SwiftTxState) (tx : CTransaction) (nBlockHeight : Int) :
    SameLocks state (state.doConsensusVote env tx nBlockHeight) := by
  obtain ⟨votes, known, voted⟩ := doConsensusVote_eq env state tx nBlockHeight
  rw [voted]
  exact .of_mapTxLocks rfl known

theorem rejectRequest_sameLocks
    (env : SwiftTxEnv) (state : SwiftTxState) (tx : CTransaction) :
    SameLocks state (state.rejectRequest env tx) := by
  unfold rejectRequest
  dsimp only
  split_ifs
  · have checked := checkForConflictingLocks_sameLocks env
      ({ state with
          mapTxLockReqRejected :=
            insertNew state.mapTxLockReqRejected tx.hash tx }.lockInputs tx.hash tx.vin) tx
    split
    · next resolved outcome =>
        rw [outcome] at checked
        refine SameLocks.trans ?_ checked
        exact .of_mapTxLocks rfl fun _ known => known
    · next resolved outcome =>
        rw [outcome] at checked
        refine SameLocks.trans (SameLocks.trans ?_ checked) ?_
        · exact .of_mapTxLocks rfl fun _ known => known
        · exact .of_mapTxLocks rfl fun _ known => known
  · exact .of_mapTxLocks rfl fun _ known => known

theorem completeLock_sameLocks
    (env : SwiftTxEnv) (state : SwiftTxState) (txHash : Uint256) :
    SameLocks state (state.completeLock env txHash) := by
  unfold completeLock
  dsimp only
  generalize inserted : insertNew state.mapTxLockReq txHash emptyTransaction = requests
  have checked := checkForConflictingLocks_sameLocks env
    { state with mapTxLockReq := requests } ((requests txHash).getD emptyTransaction)
  split
  · next resolved outcome =>
      rw [outcome] at checked
      refine SameLocks.trans ?_ checked
      exact .of_mapTxLocks rfl fun _ known => known
  · next resolved outcome =>
      rw [outcome] at checked
      refine SameLocks.trans (SameLocks.trans ?_ checked) ?_
      · exact .of_mapTxLocks rfl fun _ known => known
      · exact .of_mapTxLocks rfl fun _ known => known

theorem votesFor_setLockHeight
    (env : SwiftTxEnv) (state : SwiftTxState) (txHash : Uint256) (nBlockHeight : Int)
    (other : Uint256) :
    (state.setLockHeight env txHash nBlockHeight).votesFor other = state.votesFor other := by
  unfold votesFor setLockHeight
  by_cases same : other = txHash
  · cases found : state.mapTxLocks.get? txHash <;> simp [same, found]
  · simp [SortedMap.get?_insert, same]

theorem heightFor_setLockHeight
    (env : SwiftTxEnv) (state : SwiftTxState) (txHash : Uint256) (nBlockHeight : Int)
    (other : Uint256) :
    (state.setLockHeight env txHash nBlockHeight).heightFor other =
      if other = txHash then nBlockHeight else state.heightFor other := by
  unfold heightFor setLockHeight
  split_ifs with same
  · cases state.mapTxLocks.get? txHash <;> simp [same]
  · simp [SortedMap.get?_insert, same]

theorem votesFor_addVote
    (env : SwiftTxEnv) (state : SwiftTxState) (ctx : CConsensusVote) (other : Uint256) :
    (state.addVote env ctx).votesFor other =
      if other = ctx.txHash then state.votesFor other ++ [ctx] else state.votesFor other := by
  unfold votesFor addVote
  split_ifs with same
  · cases found : state.mapTxLocks.get? ctx.txHash <;>
      simp [same, found, CTransactionLock.addSignature]
  · simp [SortedMap.get?_insert, same]

theorem heightFor_addVote
    (env : SwiftTxEnv) (state : SwiftTxState) (ctx : CConsensusVote) (other : Uint256) :
    (state.addVote env ctx).heightFor other = state.heightFor other := by
  unfold heightFor addVote
  by_cases same : other = ctx.txHash
  · cases found : state.mapTxLocks.get? ctx.txHash <;>
      simp [same, found, CTransactionLock.addSignature]
  · simp [SortedMap.get?_insert, same]

end SwiftTxState

/-! ## The invariant of the votes -/

/-- Each lock holds votes of its own transaction that arrived and were valid, no two locks
and no two places of one lock hold votes with the same hash, and the votes held are known.
The height of a lock was selected by a request. -/
structure VotesKept (trace : List SwiftTxAction) (state : SwiftTxState) : Prop where
  keyed : ∀ txHash lock, state.mapTxLocks.get? txHash = some lock → lock.txHash = txHash
  ranked : ∀ txHash, ∀ vote ∈ state.votesFor txHash,
    vote.txHash = txHash ∧ RankedIn trace vote
  nodup : ∀ txHash, ((state.votesFor txHash).map CConsensusVote.getHash).Nodup
  apart : ∀ txHash other, ∀ vote ∈ state.votesFor txHash, ∀ twin ∈ state.votesFor other,
    vote.getHash = twin.getHash → txHash = other
  known : ∀ txHash, ∀ vote ∈ state.votesFor txHash,
    (state.mapTxLockVote vote.getHash).isSome
  selected : ∀ txHash, state.heightFor txHash ≠ 0 →
    SelectedIn trace txHash (state.heightFor txHash)

namespace VotesKept

theorem empty : VotesKept [] .empty where
  keyed _ _ found := by cases found
  ranked _ vote member := by cases member
  nodup _ := .nil
  apart _ _ vote member := by cases member
  known _ vote member := by cases member
  selected _ height := absurd rfl height

theorem mono
    (kept : VotesKept past state)
    (included : past ⊆ trace) :
    VotesKept trace state :=
  { kept with
    ranked := fun txHash vote member =>
      (kept.ranked txHash vote member).imp_right fun ranked => ranked.mono included
    selected := fun txHash height => (kept.selected txHash height).mono included }

theorem frame
    (kept : VotesKept trace state)
    (same : SwiftTxState.SameLocks state after) :
    VotesKept trace after where
  keyed txHash lock found := by
    obtain ⟨old, foundOld, sameName⟩ := same.keyed txHash lock found
    rw [sameName, kept.keyed txHash old foundOld]
  ranked := by simpa only [same.votes] using kept.ranked
  nodup := by simpa only [same.votes] using kept.nodup
  apart := by simpa only [same.votes] using kept.apart
  known txHash vote member := by
    rw [same.votes] at member
    exact same.known _ (kept.known txHash vote member)
  selected := by simpa only [same.heights] using kept.selected

theorem setLockHeight
    (kept : VotesKept trace state)
    (selected : SelectedIn trace txHash nBlockHeight)
    (env : SwiftTxEnv) :
    VotesKept trace (state.setLockHeight env txHash nBlockHeight) where
  keyed other lock found := by
    simp only [SwiftTxState.setLockHeight, SortedMap.get?_insert] at found
    split_ifs at found with same
    · cases foundOld : state.mapTxLocks.get? txHash with
      | none =>
        simp only [foundOld, Option.some.injEq] at found
        rw [← found, same]
      | some old =>
        simp only [foundOld, Option.some.injEq] at found
        rw [← found, same]
        exact kept.keyed txHash old foundOld
    · exact kept.keyed other lock found
  ranked := by simpa only [SwiftTxState.votesFor_setLockHeight] using kept.ranked
  nodup := by simpa only [SwiftTxState.votesFor_setLockHeight] using kept.nodup
  apart := by simpa only [SwiftTxState.votesFor_setLockHeight] using kept.apart
  known txHash vote member := by
    rw [SwiftTxState.votesFor_setLockHeight] at member
    exact kept.known txHash vote member
  selected other height := by
    rw [SwiftTxState.heightFor_setLockHeight] at height ⊢
    split_ifs at height ⊢ with same
    · exact same ▸ selected
    · exact kept.selected other height

theorem createNewLock
    (kept : VotesKept trace state)
    (requested : SwiftTxAction.ix env tx ∈ trace ∨ SwiftTxAction.relayLockRequest env tx ∈ trace) :
    VotesKept trace (state.createNewLock env tx).2 := by
  unfold SwiftTxState.createNewLock
  cases computed : env.lockHeight tx with
  | none => exact kept
  | some nBlockHeight => exact kept.setLockHeight ⟨env, tx, requested, rfl, computed⟩ env

/-- A vote whose hash was not known joins the lock of its transaction. -/
theorem addVote
    (kept : VotesKept trace state)
    (env : SwiftTxEnv)
    (fresh : (state.mapTxLockVote ctx.getHash).isSome = false)
    (ranked : RankedIn trace ctx) :
    VotesKept trace
      ({ state with
          mapTxLockVote := Function.update state.mapTxLockVote ctx.getHash (some ctx)
        }.addVote env ctx) := by
  have unseen : ∀ txHash, ∀ vote ∈ state.votesFor txHash, vote.getHash ≠ ctx.getHash := by
    intro txHash vote member same
    have known := kept.known txHash vote member
    rw [same, fresh] at known
    cases known
  set noted : SwiftTxState :=
    { state with
      mapTxLockVote := Function.update state.mapTxLockVote ctx.getHash (some ctx) }
  have member_votes : ∀ txHash vote, vote ∈ (noted.addVote env ctx).votesFor txHash ↔
      vote ∈ state.votesFor txHash ∨ txHash = ctx.txHash ∧ vote = ctx := by
    intro txHash vote
    have sameVotes : noted.votesFor txHash = state.votesFor txHash := rfl
    rw [SwiftTxState.votesFor_addVote, sameVotes]
    split_ifs with same
    · simp [same]
    · simp [same]
  constructor
  · intro txHash lock found
    simp only [SwiftTxState.addVote, SortedMap.get?_insert] at found
    split_ifs at found with same
    · cases foundOld : noted.mapTxLocks.get? ctx.txHash with
      | none =>
        simp only [foundOld, Option.some.injEq] at found
        rw [← found, same]
      | some old =>
        simp only [foundOld, Option.some.injEq] at found
        rw [← found, same]
        exact kept.keyed ctx.txHash old foundOld
    · exact kept.keyed txHash lock found
  · intro txHash vote member
    rcases (member_votes txHash vote).mp member with held | ⟨rfl, rfl⟩
    · exact kept.ranked txHash vote held
    · exact ⟨rfl, ranked⟩
  · intro txHash
    have sameVotes : noted.votesFor txHash = state.votesFor txHash := rfl
    rw [SwiftTxState.votesFor_addVote, sameVotes]
    split_ifs with same
    · rw [List.map_append, List.map_singleton]
      refine List.nodup_append.mpr ⟨kept.nodup txHash, List.nodup_singleton _, ?_⟩
      intro hash held last member same
      obtain ⟨vote, voteHeld, rfl⟩ := List.mem_map.mp held
      rw [List.mem_singleton] at member
      exact unseen txHash vote voteHeld (same.trans member)
    · exact kept.nodup txHash
  · intro txHash other vote member twin twinMember same
    rcases (member_votes txHash vote).mp member with held | ⟨rfl, rfl⟩
    · rcases (member_votes other twin).mp twinMember with twinHeld | ⟨rfl, rfl⟩
      · exact kept.apart txHash other vote held twin twinHeld same
      · exact absurd same (unseen txHash vote held)
    · rcases (member_votes other twin).mp twinMember with twinHeld | ⟨rfl, rfl⟩
      · exact absurd same.symm (unseen other twin twinHeld)
      · rfl
  · intro txHash vote member
    change (Function.update state.mapTxLockVote ctx.getHash (some ctx) vote.getHash).isSome
    rcases (member_votes txHash vote).mp member with held | ⟨rfl, rfl⟩
    · rw [Function.update_of_ne (unseen txHash vote held)]
      exact kept.known txHash vote held
    · rw [Function.update_self]
      rfl
  · intro txHash height
    rw [SwiftTxState.heightFor_addVote] at height ⊢
    exact kept.selected txHash height

theorem processLockRequest
    (kept : VotesKept trace state)
    (requested : SwiftTxAction.ix env tx ∈ trace) :
    VotesKept trace (state.processLockRequest env tx) := by
  have created := kept.createNewLock (.inl requested)
  unfold SwiftTxState.processLockRequest
  split_ifs
  · exact kept
  · exact kept
  · have voted := created.frame (SwiftTxState.doConsensusVote_sameLocks env _ tx
      (state.createNewLock env tx).1)
    exact voted.frame (.of_mapTxLocks rfl fun _ known => known)
  · exact created.frame (SwiftTxState.rejectRequest_sameLocks env _ tx)

theorem relayLockRequest
    (kept : VotesKept trace state)
    (requested : SwiftTxAction.relayLockRequest env tx ∈ trace) :
    VotesKept trace (state.relayLockRequest env tx) := by
  apply createNewLock _ (.inr requested)
  exact kept.frame (.of_mapTxLocks rfl fun _ known => known)

theorem processVoteMessage
    (kept : VotesKept trace state)
    (arrived : SwiftTxAction.txlvote env ctx ∈ trace) :
    VotesKept trace (state.processVoteMessage env ctx) := by
  unfold SwiftTxState.processVoteMessage
  split_ifs with seen
  · exact kept
  · rw [Bool.not_eq_true] at seen
    unfold SwiftTxState.processConsensusVote
    dsimp only
    split_ifs with valid complete
    · have added := kept.addVote env seen ⟨env, arrived, valid⟩
      exact added.frame (SwiftTxState.completeLock_sameLocks env _ ctx.txHash)
    · exact kept.addVote env seen ⟨env, arrived, valid⟩
    · refine kept.frame (.of_mapTxLocks rfl fun hash known => ?_)
      dsimp only
      rw [Function.update_apply]
      split_ifs
      · rfl
      · exact known

theorem cleanLock
    (kept : VotesKept trace state)
    (env : SwiftTxEnv) (txHash : Uint256) :
    VotesKept trace (state.cleanLock env txHash) := by
  unfold SwiftTxState.cleanLock
  split
  · exact kept
  · next lock found =>
    split_ifs with expired
    · set cleaned : SwiftTxState :=
        { state.forgetRequest lock with mapTxLocks := state.mapTxLocks.erase txHash }
      have votes_cleaned : ∀ other,
          cleaned.votesFor other = if other = txHash then [] else state.votesFor other := by
        intro other
        simp only [cleaned, SwiftTxState.votesFor, SortedMap.get?_erase]
        split_ifs with same
        · rfl
        · rfl
      have heights_cleaned : ∀ other,
          cleaned.heightFor other = if other = txHash then 0 else state.heightFor other := by
        intro other
        simp only [cleaned, SwiftTxState.heightFor, SortedMap.get?_erase]
        split_ifs with same
        · rfl
        · rfl
      have member_votes : ∀ other vote, vote ∈ cleaned.votesFor other →
          other ≠ txHash ∧ vote ∈ state.votesFor other := by
        intro other vote member
        rw [votes_cleaned] at member
        split_ifs at member with same
        · cases member
        · exact ⟨same, member⟩
      constructor
      · intro other old foundOld
        exact kept.keyed other old (SortedMap.get?_of_erase foundOld)
      · intro other vote member
        exact kept.ranked other vote (member_votes other vote member).2
      · intro other
        rw [votes_cleaned]
        split_ifs
        · exact .nil
        · exact kept.nodup other
      · intro first second vote member twin twinMember
        exact kept.apart first second vote (member_votes first vote member).2
          twin (member_votes second twin twinMember).2
      · intro other vote member
        obtain ⟨differ, held⟩ := member_votes other vote member
        have known := kept.known other vote held
        simp only [cleaned, SwiftTxState.forgetRequest]
        split
        · exact known
        · have remembered : vote.getHash ∉ lock.vecConsensusVotes.map CConsensusVote.getHash := by
            intro erased
            obtain ⟨twin, twinHeld, same⟩ := List.mem_map.mp erased
            rw [← SwiftTxState.votesFor_eq found] at twinHeld
            exact differ (kept.apart other txHash vote held twin twinHeld same.symm)
          simpa only [SwiftTxState.eraseAll, if_neg remembered] using known
      · intro other height
        rw [heights_cleaned] at height ⊢
        split_ifs at height ⊢ with same
        · exact absurd rfl height
        · exact kept.selected other height
    · exact kept

theorem cleanTransactionLocksList
    (kept : VotesKept trace state)
    (env : SwiftTxEnv) :
    VotesKept trace (state.cleanTransactionLocksList env) := by
  unfold SwiftTxState.cleanTransactionLocksList
  generalize state.mapTxLocks.entries.map Prod.fst = keys
  induction keys generalizing state with
  | nil => exact kept
  | cons key rest ih => exact ih (kept.cleanLock env key)

theorem apply
    (kept : VotesKept trace state)
    (happened : action ∈ trace) :
    VotesKept trace (action.apply state) := by
  cases action with
  | ix env tx =>
    unfold SwiftTxAction.apply
    dsimp only
    split_ifs
    · exact kept.processLockRequest happened
    · exact kept
  | txlvote env ctx =>
    unfold SwiftTxAction.apply
    dsimp only
    split_ifs
    · exact kept.processVoteMessage happened
    · exact kept
  | relayLockRequest env tx => exact kept.relayLockRequest happened
  | cleanTransactionLocksList env => exact kept.cleanTransactionLocksList env

/-- The invariant holds after every run. -/
theorem of_run
    (run : swiftTxSystem.Run .empty trace state) :
    VotesKept trace state := by
  refine @LabelledSystem.Run.traceInvariant _ _ _ _ _ _ VotesKept run empty ?_
  intro past current action next kept step
  rw [show next = action.apply current from step]
  have grown : VotesKept (past ++ [action]) current :=
    kept.mono (List.subset_append_left past [action])
  exact grown.apply (by simp)

end VotesKept

end ColossusCoin
