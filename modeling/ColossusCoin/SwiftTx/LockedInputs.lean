import ColossusCoin.SwiftTx.LockVotes
import ColossusCoin.Validation.CheckBlock

/-!
# Locked inputs and the locks behind them

Where every rejected request finds its inputs locked already or its lock complete, each
locked input belongs to a complete lock.  A rejected request of any other kind locks its
inputs with no vote at all.
-/

namespace ColossusCoin

/-- A complete lock: for its height it holds the votes of as many masternodes as are
required, each of them ranked high enough when its vote arrived. -/
structure CompleteLock (trace : List SwiftTxAction) (state : SwiftTxState)
    (txHash : Uint256) (lock : CTransactionLock) : Prop where
  found : state.mapTxLocks.get? txHash = some lock
  named : lock.txHash = txHash
  signed : swiftTxSignaturesRequired ≤ lock.countSignatures
  enough : swiftTxSignaturesRequired ≤ lock.countedVotes.length
  distinct : (lock.countedVotes.map fun vote => vote.vinMasternode.prevout).Nodup
  ranked : ∀ vote ∈ lock.countedVotes, vote.txHash = txHash ∧ RankedIn trace vote

/-- Each locked input belongs to a complete lock. -/
def LocksBacked (trace : List SwiftTxAction) (state : SwiftTxState) : Prop :=
  ∀ outpoint txHash, state.mapLockedInputs outpoint = some txHash →
    ∃ lock, CompleteLock trace state txHash lock

/-- The votes of one transaction with different hashes come from different masternodes. -/
theorem prevouts_nodup
    {votes : List CConsensusVote}
    (sameTx : ∀ vote ∈ votes, vote.txHash = txHash)
    (distinct : (votes.map CConsensusVote.getHash).Nodup) :
    (votes.map fun vote => vote.vinMasternode.prevout).Nodup := by
  have hashes : votes.map CConsensusVote.getHash =
      (votes.map fun vote => vote.vinMasternode.prevout).map fun prevout =>
        (prevout.hash + prevout.n + txHash) % 2 ^ 256 := by
    rw [List.map_map]
    apply List.map_congr_left
    intro vote member
    rw [Function.comp_apply, CConsensusVote.getHash, sameTx vote member]
  rw [hashes] at distinct
  exact distinct.of_map

theorem VotesKept.completeLock_of_isComplete
    {trace : List SwiftTxAction}
    (kept : VotesKept trace state)
    (complete : state.isComplete txHash = true) :
    ∃ lock, CompleteLock trace state txHash lock := by
  unfold SwiftTxState.isComplete at complete
  cases found : state.mapTxLocks.get? txHash with
  | none =>
    rw [found] at complete
    cases complete
  | some lock =>
    rw [found] at complete
    have signed : (swiftTxSignaturesRequired : Int) ≤ lock.countSignatures :=
      of_decide_eq_true complete
    have held : state.votesFor txHash = lock.vecConsensusVotes := SwiftTxState.votesFor_eq found
    have ranked : ∀ vote ∈ lock.countedVotes, vote.txHash = txHash ∧ RankedIn trace vote := by
      intro vote member
      apply kept.ranked txHash vote
      rw [held]
      exact (List.mem_filter.mp member).1
    have distinct := kept.nodup txHash
    rw [held] at distinct
    refine ⟨lock, found, kept.keyed txHash lock found, signed, ?_, ?_, ranked⟩
    · unfold CTransactionLock.countSignatures swiftTxSignaturesRequired at signed
      unfold swiftTxSignaturesRequired
      split_ifs at signed <;> omega
    · apply prevouts_nodup fun vote member => (ranked vote member).1
      exact distinct.sublist (List.filter_sublist.map _)

/-! ## The invariant of the locked inputs -/

/-- The lock behind each locked input is complete, and its request spends the input. -/
structure InputsBacked (state : SwiftTxState) : Prop where
  complete : ∀ outpoint txHash, state.mapLockedInputs outpoint = some txHash →
    state.isComplete txHash = true
  requested : ∀ outpoint txHash, state.mapLockedInputs outpoint = some txHash →
    ∃ tx, state.mapTxLockReq txHash = some tx ∧ outpoint ∈ tx.vin.map CTxIn.prevout

namespace SwiftTxState

theorem insertNew_of_some
    [DecidableEq Key]
    {held : Value}
    (found : map other = some held)
    (key : Key) (value : Value) :
    insertNew map key value other = some held := by
  unfold insertNew
  split_ifs with present
  · exact found
  · have differ : other ≠ key := by
      rintro rfl
      simp [found] at present
    rw [Function.update_of_ne differ, found]

theorem insertNew_of_none
    [DecidableEq Key] {map : Key → Option Value}
    (absent : map key = none) (value : Value) :
    insertNew map key value key = some value := by
  simp [insertNew, absent]

theorem locked_lockInputs
    {state : SwiftTxState}
    (locked : (state.lockInputs txHash vin).mapLockedInputs outpoint = some other) :
    state.mapLockedInputs outpoint = some other ∨
      other = txHash ∧ outpoint ∈ vin.map CTxIn.prevout := by
  induction vin generalizing state with
  | nil => exact .inl locked
  | cons txin rest ih =>
    have step := @ih
      { state with
        mapLockedInputs := insertNew state.mapLockedInputs txin.prevout txHash } locked
    rcases step with before | ⟨same, member⟩
    · dsimp only [insertNew] at before
      split_ifs at before with present
      · exact .inl before
      · rw [Function.update_apply] at before
        split_ifs at before with here
        · cases before
          exact .inr ⟨rfl, by simp [here]⟩
        · exact .inl before
    · exact .inr ⟨same, by simp [List.mem_map.mp member]⟩

theorem lockInputs_of_locked
    {state : SwiftTxState}
    (locked : ∀ txin ∈ vin, (state.mapLockedInputs txin.prevout).isSome)
    (txHash : Uint256) :
    state.lockInputs txHash vin = state := by
  induction vin with
  | nil => rfl
  | cons txin rest ih =>
    rw [List.forall_mem_cons] at locked
    have kept : insertNew state.mapLockedInputs txin.prevout txHash = state.mapLockedInputs := by
      simp [insertNew, locked.1]
    have unfolded : state.lockInputs txHash (txin :: rest) =
        { state with
          mapLockedInputs := insertNew state.mapLockedInputs txin.prevout txHash
        }.lockInputs txHash rest := rfl
    rw [unfolded, kept]
    exact ih locked.2

theorem conflictingInput_eq_none
    (state : SwiftTxState) (tx : CTransaction) :
    state.conflictingInput tx = none ↔
      ∀ outpoint ∈ tx.vin.map CTxIn.prevout, ∀ locked,
        state.mapLockedInputs outpoint = some locked → locked = tx.hash := by
  simp [conflictingInput, Option.filter_eq_none_iff]

@[simp] theorem mapLockedInputs_expireLock
    (env : SwiftTxEnv) (state : SwiftTxState) (txHash : Uint256) :
    (state.expireLock env txHash).mapLockedInputs = state.mapLockedInputs := by
  unfold expireLock
  split <;> rfl

@[simp] theorem mapTxLockReq_expireLock
    (env : SwiftTxEnv) (state : SwiftTxState) (txHash : Uint256) :
    (state.expireLock env txHash).mapTxLockReq = state.mapTxLockReq := by
  unfold expireLock
  split <;> rfl

@[simp] theorem mapLockedInputs_checkForConflictingLocks
    (env : SwiftTxEnv) (state : SwiftTxState) (tx : CTransaction) :
    (state.checkForConflictingLocks env tx).2.mapLockedInputs = state.mapLockedInputs := by
  unfold checkForConflictingLocks
  split <;> simp

@[simp] theorem mapTxLockReq_checkForConflictingLocks
    (env : SwiftTxEnv) (state : SwiftTxState) (tx : CTransaction) :
    (state.checkForConflictingLocks env tx).2.mapTxLockReq = state.mapTxLockReq := by
  unfold checkForConflictingLocks
  split <;> simp

@[simp] theorem mapLockedInputs_rejectRequest
    (env : SwiftTxEnv) (state : SwiftTxState) (tx : CTransaction) :
    (state.rejectRequest env tx).mapLockedInputs =
      (state.lockInputs tx.hash tx.vin).mapLockedInputs := by
  unfold rejectRequest
  dsimp only
  split_ifs
  · split
    · next resolved outcome =>
        rw [show resolved = _ from congrArg Prod.snd outcome.symm]
        simp [lockInputs]
    · next resolved outcome =>
        rw [show resolved = _ from congrArg Prod.snd outcome.symm]
        simp [lockInputs]
  · rfl

theorem mapTxLockReq_rejectRequest_of_some
    (env : SwiftTxEnv) (state : SwiftTxState) (tx : CTransaction)
    (found : state.mapTxLockReq txHash = some request) :
    (state.rejectRequest env tx).mapTxLockReq txHash = some request := by
  unfold rejectRequest
  dsimp only
  split_ifs
  · split
    · next resolved outcome =>
        rw [show resolved = _ from congrArg Prod.snd outcome.symm]
        simpa [lockInputs] using found
    · next resolved outcome =>
        apply insertNew_of_some
        rw [show resolved = _ from congrArg Prod.snd outcome.symm]
        simpa [lockInputs] using found
  · exact found

theorem mapTxLockReq_rejectRequest
    {env : SwiftTxEnv} {state : SwiftTxState}
    (unknown : state.mapTxLockReq tx.hash = none)
    (complete : state.isComplete tx.hash = true)
    (apart : state.conflictingInput tx = none) :
    (state.rejectRequest env tx).mapTxLockReq tx.hash = some tx := by
  have stillApart : ({ state with
      mapTxLockReqRejected := insertNew state.mapTxLockReqRejected tx.hash tx
      }.lockInputs tx.hash tx.vin).conflictingInput tx = none := by
    rw [conflictingInput_eq_none] at apart ⊢
    intro outpoint spends locked found
    rcases locked_lockInputs found with before | ⟨same, -⟩
    · exact apart outpoint spends locked before
    · exact same
  have stillComplete : ({ state with
      mapTxLockReqRejected := insertNew state.mapTxLockReqRejected tx.hash tx
      }.lockInputs tx.hash tx.vin).isComplete tx.hash = true := complete
  unfold rejectRequest
  rw [if_pos stillComplete, checkForConflictingLocks, stillApart]
  exact insertNew_of_none unknown tx

theorem mapTxLockReq_createNewLock
    (env : SwiftTxEnv) (state : SwiftTxState) (tx : CTransaction) :
    (state.createNewLock env tx).2.mapTxLockReq = state.mapTxLockReq := by
  unfold createNewLock
  split <;> rfl

theorem mapLockedInputs_createNewLock
    (env : SwiftTxEnv) (state : SwiftTxState) (tx : CTransaction) :
    (state.createNewLock env tx).2.mapLockedInputs = state.mapLockedInputs := by
  unfold createNewLock
  split <;> rfl

theorem unknown_of_new
    {state : SwiftTxState}
    (new : ¬((state.mapTxLockReq txHash).isSome ||
      (state.mapTxLockReqRejected txHash).isSome) = true) :
    state.mapTxLockReq txHash = none ∧ state.mapTxLockReqRejected txHash = none := by
  simpa using new

/-- A request arrives that is new and proper, and the memory pool rejects it. -/
def rejectsRequest (env : SwiftTxEnv) (state : SwiftTxState) (tx : CTransaction) : Bool :=
  (state.mapTxLockReq tx.hash).isNone && (state.mapTxLockReqRejected tx.hash).isNone &&
    env.isIXTXValid tx && env.hasNormalScripts tx && !env.acceptToMemoryPool tx

end SwiftTxState

/-- A node that rejects a request finds every input of it locked already, or finds the lock
of its transaction complete and none of its inputs locked for another transaction. -/
def FindsLock (env : SwiftTxEnv) (state : SwiftTxState) (tx : CTransaction) : Prop :=
  (∀ txin ∈ tx.vin, (state.mapLockedInputs txin.prevout).isSome) ∨
    (state.createNewLock env tx).2.isComplete tx.hash = true ∧
      state.conflictingInput tx = none

namespace InputsBacked

theorem empty : InputsBacked .empty where
  complete _ _ locked := by cases locked
  requested _ _ locked := by cases locked

theorem frame
    (backed : InputsBacked state)
    (sameLocks : SwiftTxState.SameLocks state after)
    (sameInputs : after.mapLockedInputs = state.mapLockedInputs)
    (requests : ∀ txHash tx,
      state.mapTxLockReq txHash = some tx → after.mapTxLockReq txHash = some tx) :
    InputsBacked after where
  complete outpoint txHash locked := by
    rw [sameInputs] at locked
    rw [sameLocks.isComplete]
    exact backed.complete outpoint txHash locked
  requested outpoint txHash locked := by
    rw [sameInputs] at locked
    obtain ⟨tx, found, spends⟩ := backed.requested outpoint txHash locked
    exact ⟨tx, requests txHash tx found, spends⟩

theorem insertRequest
    (backed : InputsBacked state)
    (txHash : Uint256) (tx : CTransaction) :
    InputsBacked
      { state with
        mapTxLockReq := SwiftTxState.insertNew state.mapTxLockReq txHash tx } :=
  backed.frame (.of_mapTxLocks rfl fun _ known => known) rfl
    fun _ _ found => SwiftTxState.insertNew_of_some found txHash tx

theorem lockInputs
    (backed : InputsBacked state)
    {txHash : Uint256}
    (complete : state.isComplete txHash = true)
    (requested : state.mapTxLockReq txHash = some tx) :
    InputsBacked (state.lockInputs txHash tx.vin) where
  complete outpoint other locked := by
    rcases SwiftTxState.locked_lockInputs locked with before | ⟨rfl, -⟩
    · exact backed.complete outpoint other before
    · exact complete
  requested outpoint other locked := by
    rcases SwiftTxState.locked_lockInputs locked with before | ⟨rfl, spends⟩
    · exact backed.requested outpoint other before
    · exact ⟨tx, requested, spends⟩

/-- A request leaves complete the locks for which inputs are locked, if it leaves the height
of its own. -/
theorem createNewLock
    (backed : InputsBacked state)
    (sameHeight : ∀ outpoint, state.mapLockedInputs outpoint = some tx.hash →
      ∀ nBlockHeight, env.lockHeight tx = some nBlockHeight →
        nBlockHeight = state.heightFor tx.hash) :
    InputsBacked (state.createNewLock env tx).2 := by
  unfold SwiftTxState.createNewLock
  cases computed : env.lockHeight tx with
  | none => exact backed
  | some nBlockHeight =>
    constructor
    · intro outpoint txHash locked
      have complete := backed.complete outpoint txHash locked
      rw [SwiftTxState.isComplete_iff] at complete ⊢
      rw [SwiftTxState.heightFor_setLockHeight, SwiftTxState.votesFor_setLockHeight]
      split_ifs with same
      · subst same
        rw [sameHeight outpoint locked nBlockHeight computed]
        exact complete
      · exact complete
    · exact backed.requested

theorem createNewLock_of_unknown
    (backed : InputsBacked state)
    (env : SwiftTxEnv)
    (unknown : state.mapTxLockReq tx.hash = none) :
    InputsBacked (state.createNewLock env tx).2 := by
  apply backed.createNewLock
  intro outpoint locked
  obtain ⟨request, found, -⟩ := backed.requested outpoint tx.hash locked
  rw [unknown] at found
  cases found

theorem rejectRequest
    (backed : InputsBacked state)
    {tx : CTransaction}
    (unknown : state.mapTxLockReq tx.hash = none)
    (finds : (∀ txin ∈ tx.vin, (state.mapLockedInputs txin.prevout).isSome) ∨
      state.isComplete tx.hash = true ∧ state.conflictingInput tx = none) :
    InputsBacked (state.rejectRequest env tx) := by
  have sameLocks := SwiftTxState.rejectRequest_sameLocks env state tx
  have sameInputs := SwiftTxState.mapLockedInputs_rejectRequest env state tx
  have requests : ∀ txHash request, state.mapTxLockReq txHash = some request →
      (state.rejectRequest env tx).mapTxLockReq txHash = some request :=
    fun _ _ found => SwiftTxState.mapTxLockReq_rejectRequest_of_some env state tx found
  rcases finds with lockedAlready | ⟨complete, apart⟩
  · rw [SwiftTxState.lockInputs_of_locked lockedAlready] at sameInputs
    exact backed.frame sameLocks sameInputs requests
  · constructor
    · intro outpoint txHash locked
      rw [sameInputs] at locked
      rw [sameLocks.isComplete]
      rcases SwiftTxState.locked_lockInputs locked with before | ⟨rfl, -⟩
      · exact backed.complete outpoint txHash before
      · exact complete
    · intro outpoint txHash locked
      rw [sameInputs] at locked
      rcases SwiftTxState.locked_lockInputs locked with before | ⟨rfl, spends⟩
      · obtain ⟨old, found, spends⟩ := backed.requested outpoint txHash before
        exact ⟨old, requests txHash old found, spends⟩
      · exact ⟨tx, SwiftTxState.mapTxLockReq_rejectRequest unknown complete apart, spends⟩

/-- A request backs the inputs that are locked by then, unless it is rejected without a
complete lock. -/
theorem processLockRequest
    (backed : InputsBacked state)
    {env : SwiftTxEnv}
    (finds : state.rejectsRequest env tx = true → FindsLock env state tx) :
    InputsBacked (state.processLockRequest env tx) := by
  unfold SwiftTxState.processLockRequest
  split_ifs with known invalid accepted
  · exact backed
  · exact backed
  · have created := backed.createNewLock_of_unknown env (SwiftTxState.unknown_of_new known).1
    obtain ⟨votes, kept, voted⟩ := SwiftTxState.doConsensusVote_eq env
      (state.createNewLock env tx).2 tx (state.createNewLock env tx).1
    have votedBacked : InputsBacked ((state.createNewLock env tx).2.doConsensusVote env tx
        (state.createNewLock env tx).1) := by
      rw [voted]
      exact created.frame (.of_mapTxLocks rfl kept) rfl fun _ _ found => found
    exact votedBacked.insertRequest tx.hash tx
  · have unknown := SwiftTxState.unknown_of_new known
    have created := backed.createNewLock_of_unknown env unknown.1
    have rejects : state.rejectsRequest env tx = true := by
      simp only [Bool.or_eq_true, not_or, Bool.not_eq_true', Bool.not_eq_false] at invalid
      simp [SwiftTxState.rejectsRequest, unknown.1, unknown.2, invalid.1, invalid.2, accepted]
    apply created.rejectRequest
    · rw [SwiftTxState.mapTxLockReq_createNewLock]
      exact unknown.1
    · rcases finds rejects with lockedAlready | ⟨complete, apart⟩
      · rw [SwiftTxState.mapLockedInputs_createNewLock]
        exact .inl lockedAlready
      · refine .inr ⟨complete, ?_⟩
        rw [SwiftTxState.conflictingInput_eq_none] at apart ⊢
        rw [SwiftTxState.mapLockedInputs_createNewLock]
        exact apart

theorem addVote
    (backed : InputsBacked state)
    (env : SwiftTxEnv) (ctx : CConsensusVote) :
    InputsBacked (state.addVote env ctx) where
  complete outpoint txHash locked := by
    have complete := backed.complete outpoint txHash locked
    rw [SwiftTxState.isComplete_iff] at complete ⊢
    rw [SwiftTxState.heightFor_addVote, SwiftTxState.votesFor_addVote]
    refine ⟨complete.1, Nat.le_trans complete.2 ?_⟩
    split_ifs
    · rw [List.filter_append, List.length_append]
      exact Nat.le_add_right _ _
    · exact Nat.le_refl _
  requested := backed.requested

theorem completeLock
    (backed : InputsBacked state)
    (complete : state.isComplete txHash = true)
    (env : SwiftTxEnv) :
    InputsBacked (state.completeLock env txHash) := by
  have requestedBacked := backed.insertRequest txHash emptyTransaction
  have requestedComplete : SwiftTxState.isComplete
      { state with
        mapTxLockReq :=
          SwiftTxState.insertNew state.mapTxLockReq txHash emptyTransaction } txHash = true :=
    complete
  unfold SwiftTxState.completeLock
  dsimp only
  generalize requesting : SwiftTxState.insertNew state.mapTxLockReq txHash emptyTransaction =
    requests at requestedBacked requestedComplete ⊢
  have found : requests txHash = some ((requests txHash).getD emptyTransaction) := by
    rw [← requesting, SwiftTxState.insertNew]
    split_ifs with present
    · obtain ⟨tx, known⟩ := Option.isSome_iff_exists.mp present
      simp [known]
    · simp
  generalize (requests txHash).getD emptyTransaction = tx at found
  have checkedSame := SwiftTxState.checkForConflictingLocks_sameLocks env
    { state with mapTxLockReq := requests } tx
  have checkedBacked := requestedBacked.frame checkedSame
    (SwiftTxState.mapLockedInputs_checkForConflictingLocks env _ tx)
    fun _ _ known => by rwa [SwiftTxState.mapTxLockReq_checkForConflictingLocks]
  split
  · next resolved outcome =>
      rw [outcome] at checkedBacked
      exact checkedBacked
  · next resolved outcome =>
      have kept := SwiftTxState.mapTxLockReq_checkForConflictingLocks env
        { state with mapTxLockReq := requests } tx
      rw [outcome] at checkedBacked checkedSame kept
      apply checkedBacked.lockInputs
      · rw [checkedSame.isComplete]
        exact requestedComplete
      · rw [kept]
        exact found

theorem processVoteMessage
    (backed : InputsBacked state)
    (env : SwiftTxEnv) (ctx : CConsensusVote) :
    InputsBacked (state.processVoteMessage env ctx) := by
  unfold SwiftTxState.processVoteMessage
  split_ifs
  · exact backed
  · have noted : InputsBacked
        { state with
          mapTxLockVote := Function.update state.mapTxLockVote ctx.getHash (some ctx) } :=
      ⟨backed.complete, backed.requested⟩
    have added := noted.addVote env ctx
    unfold SwiftTxState.processConsensusVote
    dsimp only
    split_ifs with valid complete
    · exact added.completeLock complete env
    · exact added
    · exact noted

theorem relayLockRequest
    (backed : InputsBacked state)
    (sameHeight : ∀ outpoint, state.mapLockedInputs outpoint = some tx.hash →
      ∀ nBlockHeight, env.lockHeight tx = some nBlockHeight →
        nBlockHeight = state.heightFor tx.hash) :
    InputsBacked (state.relayLockRequest env tx) :=
  (backed.insertRequest tx.hash tx).createNewLock sameHeight

theorem cleanLock
    (backed : InputsBacked state)
    (keyed : ∀ lock, state.mapTxLocks.get? txHash = some lock → lock.txHash = txHash)
    (env : SwiftTxEnv) :
    InputsBacked (state.cleanLock env txHash) := by
  unfold SwiftTxState.cleanLock
  split
  · exact backed
  · next lock found =>
    split_ifs with expired
    · set cleaned : SwiftTxState :=
        { state.forgetRequest lock with mapTxLocks := state.mapTxLocks.erase txHash }
      have named := keyed lock found
      have stillLocked : ∀ outpoint other, cleaned.mapLockedInputs outpoint = some other →
          state.mapLockedInputs outpoint = some other ∧ other ≠ txHash := by
        intro outpoint other locked
        have before : state.mapLockedInputs outpoint = some other := by
          simp only [cleaned, SwiftTxState.forgetRequest] at locked
          split at locked
          · exact locked
          · simp only [SwiftTxState.eraseAll] at locked
            split_ifs at locked
            exact locked
        refine ⟨before, ?_⟩
        rintro rfl
        obtain ⟨tx, request, spends⟩ := backed.requested outpoint other before
        simp only [cleaned, SwiftTxState.forgetRequest, named, request, SwiftTxState.eraseAll,
          if_pos spends] at locked
        cases locked
      constructor
      · intro outpoint other locked
        obtain ⟨before, differ⟩ := stillLocked outpoint other locked
        have complete := backed.complete outpoint other before
        simpa only [cleaned, SwiftTxState.isComplete, SortedMap.get?_erase, if_neg differ]
          using complete
      · intro outpoint other locked
        obtain ⟨before, differ⟩ := stillLocked outpoint other locked
        obtain ⟨tx, request, spends⟩ := backed.requested outpoint other before
        refine ⟨tx, ?_, spends⟩
        simp only [cleaned, SwiftTxState.forgetRequest, named]
        split
        · exact request
        · dsimp only
          rw [Function.update_of_ne differ]
          exact request
    · exact backed

theorem cleanTransactionLocksList
    (backed : InputsBacked state)
    (kept : VotesKept trace state)
    (env : SwiftTxEnv) :
    InputsBacked (state.cleanTransactionLocksList env) := by
  unfold SwiftTxState.cleanTransactionLocksList
  generalize state.mapTxLocks.entries.map Prod.fst = keys
  induction keys generalizing state with
  | nil => exact backed
  | cons key rest ih =>
    exact ih (backed.cleanLock (kept.keyed key) env) (kept.cleanLock env key)

end InputsBacked

/-- What backing the locked inputs takes of an action.  A request of the node's own may not
move a lock for which inputs are locked. -/
def LocksCarefully (state : SwiftTxState) : SwiftTxAction → Prop
  | .ix env tx =>
    SwiftTxAction.isReady env = true → state.rejectsRequest env tx = true →
      FindsLock env state tx
  | .relayLockRequest env tx =>
    ∀ outpoint, state.mapLockedInputs outpoint = some tx.hash →
      ∀ nBlockHeight, env.lockHeight tx = some nBlockHeight →
        nBlockHeight = state.heightFor tx.hash
  | _ => True

/-- Runs in which each rejected request finds its inputs locked or its lock complete. -/
def carefulSwiftTxSystem : LabelledSystem SwiftTxState SwiftTxAction where
  Step state action next := LocksCarefully state action ∧ next = action.apply state

variable {trace : List SwiftTxAction}

theorem InputsBacked.apply
    (backed : InputsBacked state)
    (kept : VotesKept trace state)
    (careful : LocksCarefully state action) :
    InputsBacked (action.apply state) := by
  cases action with
  | ix env tx =>
    unfold SwiftTxAction.apply
    dsimp only
    split_ifs with ready
    · exact backed.processLockRequest (careful ready)
    · exact backed
  | txlvote env ctx =>
    unfold SwiftTxAction.apply
    dsimp only
    split_ifs
    · exact backed.processVoteMessage env ctx
    · exact backed
  | relayLockRequest env tx => exact backed.relayLockRequest careful
  | cleanTransactionLocksList env => exact backed.cleanTransactionLocksList kept env

theorem InputsBacked.of_run
    (run : carefulSwiftTxSystem.Run .empty trace state) :
    InputsBacked state := by
  have backed : VotesKept trace state ∧ InputsBacked state := by
    refine @LabelledSystem.Run.traceInvariant _ _ _ _ _ _
      (fun past current => VotesKept past current ∧ InputsBacked current) run
      ⟨VotesKept.empty, InputsBacked.empty⟩ ?_
    rintro past current action next ⟨currentKept, currentBacked⟩ ⟨careful, rfl⟩
    have grown : VotesKept (past ++ [action]) current :=
      currentKept.mono (List.subset_append_left past [action])
    exact ⟨grown.apply (by simp), currentBacked.apply currentKept careful⟩
  exact backed.2

/-- In every run whose rejected requests find their inputs locked or their lock complete,
each locked input belongs to a complete lock, and so does each conflict with a lock that
`CheckBlock` and `AcceptToMemoryPool` find. -/
theorem lockedInputs_backed
    {trace : List SwiftTxAction} {state : SwiftTxState}
    (run : carefulSwiftTxSystem.Run .empty trace state) :
    LocksBacked trace state ∧
      ∀ (node : NodeLocal) (tx : CTransaction),
        node.mapLockedInputs = state.mapLockedInputs → conflictsWithLock node tx = true →
          ∃ txin ∈ tx.vin, ∃ txHash lock,
            state.mapLockedInputs txin.prevout = some txHash ∧ txHash ≠ tx.hash ∧
              CompleteLock trace state txHash lock := by
  have kept : VotesKept trace state := VotesKept.of_run (run.mono fun step => step.2)
  have backed : InputsBacked state := InputsBacked.of_run run
  have locks : LocksBacked trace state := fun outpoint txHash locked =>
    kept.completeLock_of_isComplete (backed.complete outpoint txHash locked)
  refine ⟨locks, ?_⟩
  intro node tx sameInputs conflicts
  unfold conflictsWithLock at conflicts
  rw [Bool.and_eq_true, List.any_eq_true] at conflicts
  obtain ⟨-, txin, spends, conflict⟩ := conflicts
  rw [sameInputs] at conflict
  cases locked : state.mapLockedInputs txin.prevout with
  | none =>
    rw [locked] at conflict
    cases conflict
  | some txHash =>
    rw [locked] at conflict
    obtain ⟨lock, complete⟩ := locks txin.prevout txHash locked
    exact ⟨txin, spends, txHash, lock, locked, bne_iff_ne.mp conflict, complete⟩

/-- A node that is ready for locks, knows a coin of age 11 and ten masternodes, and takes
or rejects every transaction. -/
def lockingEnv (accepts : Bool) : SwiftTxEnv where
  fLiteMode := false
  fSwiftTxActive := true
  isBlockchainSynced := true
  fLargeWorkForkFound := false
  time := 1000
  tipHeight := 100
  coinsHeight _ := some 90
  isIXTXValid _ := true
  hasNormalScripts _ := true
  acceptToMemoryPool _ := accepts
  masternodeScores _ := some ((List.range 10).map fun n => ⟨n + 1, 0⟩)
  signatureValid _ := true
  activeMasternode := none
  sign _ _ := none

/-- A payment to lock, with one input. -/
def lockedPayment : CTransaction where
  hash := 500
  nVersion := 1
  vin := [⟨⟨900, 0⟩, [], 0⟩]
  vout := []
  nLockTime := 0

/-- Another payment that spends the same coin. -/
def rivalPayment : CTransaction :=
  { lockedPayment with hash := 501 }

/-- The vote of a masternode for the payment. -/
def voteForPayment (n : Nat) : CConsensusVote where
  vinMasternode := ⟨⟨n + 1, 0⟩, [], 0⟩
  txHash := 500
  nBlockHeight := 93
  vchMasterNodeSignature := []

/-- The payment is requested, and six masternodes vote for it. -/
def sixVotes : List SwiftTxAction :=
  .ix (lockingEnv true) lockedPayment ::
    (List.range 6).map fun n => .txlvote (lockingEnv true) (voteForPayment n)

theorem careful_sixVotes :
    carefulSwiftTxSystem.Run .empty sixVotes (sixVotes.foldl SwiftTxAction.apply .empty) := by
  apply LabelledSystem.Run.foldl
  intro action member state
  refine ⟨?_, rfl⟩
  rcases List.mem_cons.mp member with rfl | vote
  · intro _ rejects
    simp [SwiftTxState.rejectsRequest, lockingEnv] at rejects
  · obtain ⟨n, -, rfl⟩ := List.mem_map.mp vote
    trivial

theorem lockedInputs_backed_sixVotes :
    (sixVotes.foldl SwiftTxAction.apply .empty).mapLockedInputs ⟨900, 0⟩ = some 500 ∧
      ∃ lock, CompleteLock sixVotes (sixVotes.foldl SwiftTxAction.apply .empty) 500 lock := by
  have locked :
      (sixVotes.foldl SwiftTxAction.apply .empty).mapLockedInputs ⟨900, 0⟩ = some 500 := by
    decide
  refine ⟨locked, ?_⟩
  exact (lockedInputs_backed careful_sixVotes).1 ⟨900, 0⟩ 500 locked

/-- A request that the memory pool rejects locks its input with no vote, and every other
payment of the coin conflicts with it from then on. -/
theorem lockedInputs_withoutVotes :
    ∃ trace state, swiftTxSystem.Run .empty trace state ∧ ¬ LocksBacked trace state ∧
      ∀ node : NodeLocal, node.mapLockedInputs = state.mapLockedInputs →
        conflictsWithLock node rivalPayment = true := by
  set trace : List SwiftTxAction := [.ix (lockingEnv false) lockedPayment]
  set state := trace.foldl SwiftTxAction.apply .empty
  have locked : state.mapLockedInputs ⟨900, 0⟩ = some 500 := by decide
  refine ⟨trace, state, LabelledSystem.Run.foldl (fun _ _ _ => rfl) _, ?_, ?_⟩
  · intro backed
    obtain ⟨lock, complete⟩ := backed ⟨900, 0⟩ 500 locked
    have found : state.mapTxLocks.get? 500 = some lock := complete.found
    have votes : lock.countedVotes.length = 0 := by
      cases found
      rfl
    have enough := complete.enough
    rw [votes] at enough
    cases enough
  · intro node sameInputs
    simp [conflictsWithLock, sameInputs, rivalPayment, lockedPayment, locked,
      CTransaction.isCoinBase, COutPoint.isNull]

end ColossusCoin
