import ColossusCoin.SwiftTx.LockExpiry

/-!
# Votes that hide other votes

A vote is noted under its hash before anyone looks at its rank or its signature, and what is
noted is not looked at again.  A valid vote is counted where its hash is new, and in runs in
which every message with its hash is the vote itself.
-/

namespace ColossusCoin

namespace SwiftTxState

/-- The lock of its transaction holds a vote, and counts it if it is for its height. -/
def CountsVote (state : SwiftTxState) (vote : CConsensusVote) : Prop :=
  ∃ lock, state.mapTxLocks.get? vote.txHash = some lock ∧ vote ∈ lock.vecConsensusVotes ∧
    (vote.nBlockHeight = lock.nBlockHeight → vote ∈ lock.countedVotes)

theorem countsVote_iff (state : SwiftTxState) (vote : CConsensusVote) :
    state.CountsVote vote ↔ vote ∈ state.votesFor vote.txHash := by
  unfold CountsVote votesFor CTransactionLock.countedVotes
  cases state.mapTxLocks.get? vote.txHash with
  | none => simp
  | some lock =>
    simp only [Option.some.injEq, exists_eq_left', List.mem_filter, beq_iff_eq,
      Option.map_some, Option.getD_some]
    tauto

theorem votesFor_processConsensusVote
    (valid : env.votesValidly vote = true)
    (state : SwiftTxState) (txHash : Uint256) :
    (state.processConsensusVote env vote).votesFor txHash =
      if txHash = vote.txHash then state.votesFor txHash ++ [vote]
      else state.votesFor txHash := by
  unfold processConsensusVote
  rw [if_pos valid]
  dsimp only
  split_ifs with complete named named
  · rw [(completeLock_sameLocks env _ vote.txHash).votes, votesFor_addVote, if_pos named]
  · rw [(completeLock_sameLocks env _ vote.txHash).votes, votesFor_addVote, if_neg named]
  · rw [votesFor_addVote, if_pos named]
  · rw [votesFor_addVote, if_neg named]

/-- A valid vote is counted once it is delivered if its hash was new or it was counted
already, and else it is not. -/
theorem countsVote_processVoteMessage
    (valid : env.votesValidly vote = true)
    (state : SwiftTxState) :
    (state.processVoteMessage env vote).CountsVote vote ↔
      state.mapTxLockVote vote.getHash = none ∨ state.CountsVote vote := by
  unfold processVoteMessage
  split_ifs with known
  · have seen : state.mapTxLockVote vote.getHash ≠ none := by
      intro absent
      rw [absent] at known
      cases known
    rw [or_iff_right seen]
  · have absent : state.mapTxLockVote vote.getHash = none := by simpa using known
    rw [countsVote_iff, votesFor_processConsensusVote valid, if_pos rfl]
    simp [absent]

@[simp] theorem mapTxLockVote_expireLock
    (env : SwiftTxEnv) (state : SwiftTxState) (txHash : Uint256) :
    (state.expireLock env txHash).mapTxLockVote = state.mapTxLockVote := by
  unfold expireLock
  split <;> rfl

@[simp] theorem mapTxLockVote_checkForConflictingLocks
    (env : SwiftTxEnv) (state : SwiftTxState) (tx : CTransaction) :
    (state.checkForConflictingLocks env tx).2.mapTxLockVote = state.mapTxLockVote := by
  unfold checkForConflictingLocks
  split <;> simp

@[simp] theorem mapTxLockVote_rejectRequest
    (env : SwiftTxEnv) (state : SwiftTxState) (tx : CTransaction) :
    (state.rejectRequest env tx).mapTxLockVote = state.mapTxLockVote := by
  unfold rejectRequest
  dsimp only
  split_ifs
  · split
    · next resolved outcome =>
        rw [show resolved = _ from congrArg Prod.snd outcome.symm]
        simp [lockInputs]
    · next resolved outcome =>
        rw [show resolved = _ from congrArg Prod.snd outcome.symm]
        simp [lockInputs]
  · rfl

@[simp] theorem mapTxLockVote_completeLock
    (env : SwiftTxEnv) (state : SwiftTxState) (txHash : Uint256) :
    (state.completeLock env txHash).mapTxLockVote = state.mapTxLockVote := by
  unfold completeLock
  dsimp only
  split
  · next resolved outcome =>
      rw [show resolved = _ from congrArg Prod.snd outcome.symm]
      simp
  · next resolved outcome =>
      rw [show resolved = _ from congrArg Prod.snd outcome.symm]
      simp [lockInputs]

@[simp] theorem mapTxLockVote_processConsensusVote
    (env : SwiftTxEnv) (state : SwiftTxState) (ctx : CConsensusVote) :
    (state.processConsensusVote env ctx).mapTxLockVote = state.mapTxLockVote := by
  unfold processConsensusVote
  dsimp only
  split_ifs
  · simp [addVote]
  · rfl
  · rfl

theorem mapTxLockVote_createNewLock
    (env : SwiftTxEnv) (state : SwiftTxState) (tx : CTransaction) :
    (state.createNewLock env tx).2.mapTxLockVote = state.mapTxLockVote := by
  unfold createNewLock
  split <;> rfl

theorem votesFor_createNewLock
    (env : SwiftTxEnv) (state : SwiftTxState) (tx : CTransaction) (txHash : Uint256) :
    (state.createNewLock env tx).2.votesFor txHash = state.votesFor txHash := by
  unfold createNewLock
  split
  · rfl
  · rw [votesFor_setLockHeight]

end SwiftTxState

/-- The hash of the votes of a masternode for a transaction, of whatever height and
signature. -/
def voteHash (vin : CTxIn) (txHash : Uint256) : Uint256 :=
  CConsensusVote.getHash ⟨vin, txHash, 0, []⟩

/-- The node's own vote for a request is noted under a hash of its own. -/
theorem SwiftTxState.mapTxLockVote_doConsensusVote
    {hash : Uint256}
    (apart : ∀ vin, env.activeMasternode = some vin → voteHash vin tx.hash ≠ hash)
    (state : SwiftTxState) (nBlockHeight : Int) :
    (state.doConsensusVote env tx nBlockHeight).mapTxLockVote hash = state.mapTxLockVote hash := by
  unfold doConsensusVote
  cases active : env.activeMasternode with
  | none => rfl
  | some vin =>
    have other : hash ≠ voteHash vin tx.hash := (apart vin active).symm
    dsimp only
    split_ifs
    · rfl
    · split
      · rfl
      · split_ifs
        · exact Function.update_of_ne other _ _
        · rfl

/-- A vote is new or it is counted. -/
def NewOrCounted (vote : CConsensusVote) (state : SwiftTxState) : Prop :=
  state.mapTxLockVote vote.getHash = none ∨ vote ∈ state.votesFor vote.txHash

/-- What an action may not do for a vote to be counted: deliver anything else under its
hash, or the vote itself before it is valid, note a vote of the node's own under it, or drop
the lock with the vote while no request is stored. -/
def SparesVote (vote : CConsensusVote) (state : SwiftTxState) : SwiftTxAction → Prop
  | .txlvote env ctx =>
    SwiftTxAction.isReady env = true → ctx.getHash = vote.getHash →
      ctx = vote ∧ env.votesValidly vote = true
  | .ix env tx =>
    ∀ vin, env.activeMasternode = some vin → voteHash vin tx.hash ≠ vote.getHash
  | .relayLockRequest _ _ => True
  | .cleanTransactionLocksList env =>
    state.Expired env vote.txHash → (state.mapTxLockReq vote.txHash).isSome

namespace NewOrCounted

theorem frame
    (held : NewOrCounted vote state)
    (noted : after.mapTxLockVote vote.getHash = state.mapTxLockVote vote.getHash)
    (votes : after.votesFor vote.txHash = state.votesFor vote.txHash) :
    NewOrCounted vote after := by
  unfold NewOrCounted
  rw [noted, votes]
  exact held

theorem processLockRequest
    (held : NewOrCounted vote state)
    (apart : ∀ vin, env.activeMasternode = some vin →
      voteHash vin tx.hash ≠ vote.getHash) :
    NewOrCounted vote (state.processLockRequest env tx) := by
  have created : NewOrCounted vote (state.createNewLock env tx).2 :=
    held.frame (by rw [SwiftTxState.mapTxLockVote_createNewLock])
      (SwiftTxState.votesFor_createNewLock env state tx vote.txHash)
  unfold SwiftTxState.processLockRequest
  split_ifs
  · exact held
  · exact held
  · have voted := SwiftTxState.doConsensusVote_sameLocks env (state.createNewLock env tx).2 tx
      (state.createNewLock env tx).1
    exact created.frame (SwiftTxState.mapTxLockVote_doConsensusVote apart _ _)
      (voted.votes vote.txHash)
  · have rejected := SwiftTxState.rejectRequest_sameLocks env (state.createNewLock env tx).2 tx
    exact created.frame (by rw [SwiftTxState.mapTxLockVote_rejectRequest])
      (rejected.votes vote.txHash)

theorem relayLockRequest
    (held : NewOrCounted vote state)
    (env : SwiftTxEnv) (tx : CTransaction) :
    NewOrCounted vote (state.relayLockRequest env tx) := by
  unfold SwiftTxState.relayLockRequest
  apply held.frame
  · rw [SwiftTxState.mapTxLockVote_createNewLock]
  · rw [SwiftTxState.votesFor_createNewLock]
    rfl

theorem processVoteMessage
    (held : NewOrCounted vote state)
    (genuine : ctx.getHash = vote.getHash → ctx = vote ∧ env.votesValidly vote = true) :
    NewOrCounted vote (state.processVoteMessage env ctx) := by
  by_cases same : ctx.getHash = vote.getHash
  · obtain ⟨rfl, valid⟩ := genuine same
    right
    rw [← SwiftTxState.countsVote_iff, SwiftTxState.countsVote_processVoteMessage valid,
      SwiftTxState.countsVote_iff]
    exact held
  · unfold SwiftTxState.processVoteMessage
    split_ifs with known
    · exact held
    · have noted : Function.update state.mapTxLockVote ctx.getHash (some ctx) vote.getHash =
          state.mapTxLockVote vote.getHash :=
        Function.update_of_ne (Ne.symm same) _ _
      by_cases valid : env.votesValidly ctx = true
      · unfold NewOrCounted
        rw [SwiftTxState.mapTxLockVote_processConsensusVote,
          SwiftTxState.votesFor_processConsensusVote valid]
        dsimp only
        rw [noted]
        apply held.imp_right
        intro counted
        split_ifs
        · exact List.mem_append_left _ counted
        · exact counted
      · unfold SwiftTxState.processConsensusVote
        rw [if_neg valid]
        exact held.frame noted rfl

theorem cleanLock
    (held : NewOrCounted vote state)
    (kept : VotesKept trace state)
    (requested : state.Expired env vote.txHash → (state.mapTxLockReq vote.txHash).isSome)
    (key : Uint256) :
    NewOrCounted vote (state.cleanLock env key) := by
  unfold SwiftTxState.cleanLock
  cases found : state.mapTxLocks.get? key with
  | none => exact held
  | some lock =>
    dsimp only
    split_ifs with past
    · have named := kept.keyed key lock found
      have forgets : ∀ hash, state.mapTxLockVote hash = none →
          (state.forgetRequest lock).mapTxLockVote hash = none := by
        intro hash absent
        unfold SwiftTxState.forgetRequest
        split
        · exact absent
        · dsimp only
          rw [SwiftTxState.eraseAll, absent, ite_self]
      rcases held with absent | counted
      · exact .inl (forgets vote.getHash absent)
      · by_cases same : vote.txHash = key
        · left
          subst same
          obtain ⟨tx, request⟩ :=
            Option.isSome_iff_exists.mp (requested ⟨lock, found, past⟩)
          rw [SwiftTxState.votesFor_eq found] at counted
          have member : vote.getHash ∈ lock.vecConsensusVotes.map CConsensusVote.getHash :=
            List.mem_map_of_mem counted
          unfold SwiftTxState.forgetRequest
          rw [named, request]
          exact if_pos member
        · right
          unfold SwiftTxState.votesFor at counted ⊢
          rw [SortedMap.get?_erase, if_neg same]
          exact counted
    · exact held

end NewOrCounted

/-- A round of the cleanup leaves no expired lock that lost its request. -/
theorem SwiftTxState.requested_cleanLock
    {state : SwiftTxState}
    (keyed : state.Keyed)
    (requested : state.Expired env txHash → (state.mapTxLockReq txHash).isSome)
    (key : Uint256)
    (expired : (state.cleanLock env key).Expired env txHash) :
    ((state.cleanLock env key).mapTxLockReq txHash).isSome := by
  have cleaned := cleaned_cleanLock keyed env key
  obtain ⟨lock, found, past⟩ := expired
  obtain ⟨before, kept⟩ := (cleaned.locks txHash lock).mp found
  rw [(cleaned.frame kept).2]
  exact requested ⟨lock, before, past⟩

theorem NewOrCounted.cleanTransactionLocksList
    (held : NewOrCounted vote state)
    (kept : VotesKept trace state)
    (requested : state.Expired env vote.txHash → (state.mapTxLockReq vote.txHash).isSome) :
    NewOrCounted vote (state.cleanTransactionLocksList env) := by
  unfold SwiftTxState.cleanTransactionLocksList
  generalize state.mapTxLocks.entries.map Prod.fst = keys
  induction keys generalizing state with
  | nil => exact held
  | cons key rest ih =>
    exact ih (held.cleanLock kept requested key) (kept.cleanLock env key)
      (SwiftTxState.requested_cleanLock kept.keyed requested key)

theorem NewOrCounted.apply
    (held : NewOrCounted vote state)
    (kept : VotesKept trace state)
    (spares : SparesVote vote state action) :
    NewOrCounted vote (action.apply state) := by
  cases action with
  | ix env tx =>
    unfold SwiftTxAction.apply
    dsimp only
    split_ifs
    · exact held.processLockRequest spares
    · exact held
  | txlvote env ctx =>
    unfold SwiftTxAction.apply
    dsimp only
    split_ifs with ready
    · exact held.processVoteMessage (spares ready)
    · exact held
  | relayLockRequest env tx => exact held.relayLockRequest env tx
  | cleanTransactionLocksList env => exact held.cleanTransactionLocksList kept spares

/-- Runs whose actions spare a vote. -/
def sparingSwiftTxSystem (vote : CConsensusVote) :
    LabelledSystem SwiftTxState SwiftTxAction where
  Step state action next := SparesVote vote state action ∧ next = action.apply state

theorem NewOrCounted.of_run
    (run : (sparingSwiftTxSystem vote).Run .empty trace state) :
    NewOrCounted vote state := by
  have held : VotesKept trace state ∧ NewOrCounted vote state := by
    refine @LabelledSystem.Run.traceInvariant _ _ _ _ _ _
      (fun past current => VotesKept past current ∧ NewOrCounted vote current) run
      ⟨VotesKept.empty, .inl rfl⟩ ?_
    rintro past current action next ⟨currentKept, currentHeld⟩ ⟨spares, rfl⟩
    have grown : VotesKept (past ++ [action]) current :=
      currentKept.mono (List.subset_append_left past [action])
    exact ⟨grown.apply (by simp), currentHeld.apply currentKept spares⟩
  exact held.2

/-- Whatever a node did before, a valid vote that is delivered is counted afterwards exactly
if nothing was noted under its hash or it was counted already.  In every run whose actions
spare the vote it is counted. -/
theorem countsVote_of_delivery
    {env : SwiftTxEnv} {vote : CConsensusVote}
    (ready : SwiftTxAction.isReady env = true)
    (valid : env.votesValidly vote = true)
    (state : SwiftTxState) :
    (((SwiftTxAction.txlvote env vote).apply state).CountsVote vote ↔
        state.mapTxLockVote vote.getHash = none ∨ state.CountsVote vote) ∧
      ∀ trace, (sparingSwiftTxSystem vote).Run .empty trace state →
        ((SwiftTxAction.txlvote env vote).apply state).CountsVote vote := by
  have delivered : (SwiftTxAction.txlvote env vote).apply state =
      state.processVoteMessage env vote := if_pos ready
  rw [delivered]
  have counts := SwiftTxState.countsVote_processVoteMessage valid state
  refine ⟨counts, fun trace spared => ?_⟩
  rw [counts, SwiftTxState.countsVote_iff]
  exact NewOrCounted.of_run spared

/-- A node that looks at signatures: only those that are empty are valid. -/
def signedLockingEnv : SwiftTxEnv :=
  { lockingEnv true with signatureValid := fun vote => vote.vchMasterNodeSignature.isEmpty }

/-- A seventh vote is counted after six others. -/
theorem countsVote_of_delivery_seventh :
    ((SwiftTxAction.txlvote signedLockingEnv (voteForPayment 6)).apply
      (sixVotes.foldl SwiftTxAction.apply .empty)).CountsVote (voteForPayment 6) := by
  have spared : (sparingSwiftTxSystem (voteForPayment 6)).Run .empty sixVotes
      (sixVotes.foldl SwiftTxAction.apply .empty) := by
    apply LabelledSystem.Run.foldl
    intro action member state
    refine ⟨?_, rfl⟩
    rcases List.mem_cons.mp member with rfl | votes
    · intro vin active
      cases active
    · obtain ⟨n, small, rfl⟩ := List.mem_map.mp votes
      have apart : ∀ n ∈ List.range 6,
          (voteForPayment n).getHash ≠ (voteForPayment 6).getHash := by
        decide
      intro _ same
      exact absurd same (apart n small)
  exact (countsVote_of_delivery (by decide) (by decide) _).2 sixVotes spared

/-- A request, and a message with the hash of a vote for it. -/
def requestThen (message : CConsensusVote) : SwiftTxState :=
  [.ix signedLockingEnv lockedPayment, .txlvote signedLockingEnv message].foldl
    SwiftTxAction.apply .empty

/-- A genuine vote is not counted after a message with its hash that nobody signed, or after
one for another height. -/
theorem countsVote_suppressed :
    signedLockingEnv.votesValidly (voteForPayment 0) = true ∧
      SwiftTxAction.isReady signedLockingEnv = true ∧
      (∃ forged, signedLockingEnv.signatureValid forged = false ∧
        forged.getHash = (voteForPayment 0).getHash ∧
        ¬ ((SwiftTxAction.txlvote signedLockingEnv (voteForPayment 0)).apply
          (requestThen forged)).CountsVote (voteForPayment 0)) ∧
      ∃ other, other.nBlockHeight ≠ (voteForPayment 0).nBlockHeight ∧
        other.getHash = (voteForPayment 0).getHash ∧
        ¬ ((SwiftTxAction.txlvote signedLockingEnv (voteForPayment 0)).apply
          (requestThen other)).CountsVote (voteForPayment 0) := by
  refine ⟨by decide, by decide, ⟨{ voteForPayment 0 with vchMasterNodeSignature := [0] },
    by decide, by decide, ?_⟩, { voteForPayment 0 with nBlockHeight := 94 }, by decide,
    by decide, ?_⟩
  · rw [SwiftTxState.countsVote_iff]
    decide
  · rw [SwiftTxState.countsVote_iff]
    decide

end ColossusCoin
