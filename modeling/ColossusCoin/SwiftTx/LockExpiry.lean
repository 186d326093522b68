import ColossusCoin.SwiftTx.LockedInputs

/-!
# Locks that expire

What the cleanup of the locks does to each map, and when the inputs that stay locked are
those that transactions with an unexpired lock have locked.  A cleanup frees the inputs of
the stored requests of expired locks, whoever has locked them, and nothing else.
-/

namespace ColossusCoin

namespace SwiftTxState

/-- There is a lock for a transaction, and it has expired. -/
def Expired (env : SwiftTxEnv) (state : SwiftTxState) (txHash : Uint256) : Prop :=
  ∃ lock, state.mapTxLocks.get? txHash = some lock ∧ lock.nExpiration < env.time

/-- There is a lock for a transaction, and it has not expired. -/
def Unexpired (env : SwiftTxEnv) (state : SwiftTxState) (txHash : Uint256) : Prop :=
  ∃ lock, state.mapTxLocks.get? txHash = some lock ∧ env.time ≤ lock.nExpiration

/-- The stored request for a transaction spends an input. -/
def RequestSpends (state : SwiftTxState) (txHash : Uint256) (outpoint : COutPoint) : Prop :=
  ∃ tx, state.mapTxLockReq txHash = some tx ∧ outpoint ∈ tx.vin.map CTxIn.prevout

/-- A transaction with an unexpired lock holds an input that its request spends. -/
def HoldsInput (env : SwiftTxEnv) (state : SwiftTxState) (txHash : Uint256)
    (outpoint : COutPoint) : Prop :=
  state.Unexpired env txHash ∧ state.RequestSpends txHash outpoint

/-- A transaction with an expired lock gives an input up that its request spends. -/
def FreesInput (env : SwiftTxEnv) (state : SwiftTxState) (txHash : Uint256)
    (outpoint : COutPoint) : Prop :=
  state.Expired env txHash ∧ state.RequestSpends txHash outpoint

theorem unexpired_iff
    (env : SwiftTxEnv) (state : SwiftTxState) (txHash : Uint256) :
    state.Unexpired env txHash ↔
      (state.mapTxLocks.get? txHash).isSome ∧ ¬ state.Expired env txHash := by
  unfold Unexpired Expired
  cases state.mapTxLocks.get? txHash with
  | none => simp
  | some lock => simp

/-- Locks are kept under the hashes of their transactions. -/
def Keyed (state : SwiftTxState) : Prop :=
  ∀ txHash lock, state.mapTxLocks.get? txHash = some lock → lock.txHash = txHash

/-- The locks under some keys that have expired are gone, with their requests and the inputs
that these spend. -/
structure Cleaned (env : SwiftTxEnv) (keys : List Uint256) (before after : SwiftTxState) :
    Prop where
  locks : ∀ txHash lock, after.mapTxLocks.get? txHash = some lock ↔
    before.mapTxLocks.get? txHash = some lock ∧
      ¬ (txHash ∈ keys ∧ before.Expired env txHash)
  requests : ∀ txHash tx, after.mapTxLockReq txHash = some tx ↔
    before.mapTxLockReq txHash = some tx ∧
      ¬ (txHash ∈ keys ∧ before.Expired env txHash)
  inputs : ∀ outpoint locked, after.mapLockedInputs outpoint = some locked ↔
    before.mapLockedInputs outpoint = some locked ∧
      ¬ ∃ txHash ∈ keys, before.FreesInput env txHash outpoint

theorem cleaned_nil (env : SwiftTxEnv) (state : SwiftTxState) : Cleaned env [] state state where
  locks := by simp
  requests := by simp
  inputs := by simp

theorem cleanLock_of_not_expired
    {state : SwiftTxState}
    (unexpired : ¬ state.Expired env txHash) :
    state.cleanLock env txHash = state := by
  unfold cleanLock
  cases found : state.mapTxLocks.get? txHash with
  | none => rfl
  | some lock =>
    have current : ¬ lock.nExpiration < env.time := fun past => unexpired ⟨lock, found, past⟩
    exact if_neg current

theorem cleaned_cleanLock
    (keyed : state.Keyed)
    (env : SwiftTxEnv) (key : Uint256) :
    Cleaned env [key] state (state.cleanLock env key) := by
  by_cases expired : state.Expired env key
  · obtain ⟨lock, found, past⟩ := expired
    have expired : state.Expired env key := ⟨lock, found, past⟩
    have effect : state.cleanLock env key =
        { state.forgetRequest lock with mapTxLocks := state.mapTxLocks.erase key } := by
      unfold cleanLock
      rw [found]
      exact if_pos past
    rw [effect, forgetRequest, keyed key lock found]
    constructor
    · intro txHash other
      rw [SortedMap.get?_erase, List.mem_singleton]
      split_ifs with same
      · simp [same, expired]
      · simp [same]
    · intro txHash tx
      rw [List.mem_singleton]
      cases request : state.mapTxLockReq key with
      | none =>
        by_cases same : txHash = key
        · simp [same, request]
        · simp [same]
      | some forgotten =>
        by_cases same : txHash = key
        · simp [same, expired]
        · simp [same]
    · intro outpoint locked
      simp only [List.mem_singleton, exists_eq_left]
      unfold FreesInput RequestSpends
      cases request : state.mapTxLockReq key with
      | none => simp
      | some forgotten =>
        simp only [eraseAll, Option.some.injEq, exists_eq_left']
        generalize forgotten.vin.map CTxIn.prevout = spent
        by_cases spends : outpoint ∈ spent
        · simp [expired, spends]
        · simp [spends]
  · rw [cleanLock_of_not_expired expired]
    constructor
    · rintro txHash lock
      have kept : ¬ (txHash ∈ [key] ∧ state.Expired env txHash) := by
        rintro ⟨member, past⟩
        exact expired (List.mem_singleton.mp member ▸ past)
      simp only [kept, not_false_eq_true, and_true]
    · intro txHash tx
      have kept : ¬ (txHash ∈ [key] ∧ state.Expired env txHash) := by
        rintro ⟨member, past⟩
        exact expired (List.mem_singleton.mp member ▸ past)
      simp only [kept, not_false_eq_true, and_true]
    · intro outpoint locked
      have kept : ¬ ∃ txHash ∈ [key], state.FreesInput env txHash outpoint := by
        rintro ⟨txHash, member, past, _⟩
        exact expired (List.mem_singleton.mp member ▸ past)
      simp only [kept, not_false_eq_true, and_true]

theorem Cleaned.keyed
    (cleaned : Cleaned env keys before after)
    (keyed : before.Keyed) :
    after.Keyed := by
  intro txHash lock found
  exact keyed txHash lock ((cleaned.locks txHash lock).mp found).1

theorem Cleaned.frame
    (cleaned : Cleaned env keys before after)
    (kept : ¬ (txHash ∈ keys ∧ before.Expired env txHash)) :
    after.mapTxLocks.get? txHash = before.mapTxLocks.get? txHash ∧
      after.mapTxLockReq txHash = before.mapTxLockReq txHash := by
  constructor
  · ext lock
    simp only [cleaned.locks, kept, not_false_eq_true, and_true]
  · ext tx
    simp only [cleaned.requests, kept, not_false_eq_true, and_true]

/-- Cleanups under different keys do not disturb each other. -/
theorem Cleaned.cons
    (first : Cleaned env [key] before middle)
    (second : Cleaned env rest middle after)
    (fresh : key ∉ rest) :
    Cleaned env (key :: rest) before after := by
  have same : ∀ {txHash}, txHash ∈ rest →
      middle.mapTxLocks.get? txHash = before.mapTxLocks.get? txHash ∧
        middle.mapTxLockReq txHash = before.mapTxLockReq txHash := by
    intro txHash member
    apply first.frame
    rintro ⟨here, _⟩
    exact fresh (List.mem_singleton.mp here ▸ member)
  have expired_rest : ∀ {txHash}, txHash ∈ rest →
      (middle.Expired env txHash ↔ before.Expired env txHash) := by
    intro txHash member
    unfold Expired
    rw [(same member).1]
  have frees_rest : ∀ {txHash}, txHash ∈ rest → ∀ outpoint,
      (middle.FreesInput env txHash outpoint ↔ before.FreesInput env txHash outpoint) := by
    intro txHash member outpoint
    unfold FreesInput RequestSpends
    rw [expired_rest member, (same member).2]
  have goes : ∀ txHash,
      (¬ (txHash ∈ [key] ∧ before.Expired env txHash) ∧
          ¬ (txHash ∈ rest ∧ middle.Expired env txHash)) ↔
        ¬ (txHash ∈ key :: rest ∧ before.Expired env txHash) := by
    intro txHash
    rw [← not_or, and_congr_right expired_rest, ← or_and_right, List.mem_singleton, List.mem_cons]
  constructor
  · intro txHash lock
    rw [second.locks, first.locks, and_assoc, goes]
  · intro txHash tx
    rw [second.requests, first.requests, and_assoc, goes]
  · intro outpoint locked
    have later : (∃ txHash ∈ rest, middle.FreesInput env txHash outpoint) ↔
        ∃ txHash ∈ rest, before.FreesInput env txHash outpoint :=
      exists_congr fun txHash => and_congr_right fun member => frees_rest member outpoint
    have split : (∃ txHash ∈ key :: rest, before.FreesInput env txHash outpoint) ↔
        (∃ txHash ∈ [key], before.FreesInput env txHash outpoint) ∨
          ∃ txHash ∈ rest, before.FreesInput env txHash outpoint := by
      simp
    rw [second.inputs, first.inputs, and_assoc, ← not_or, later, split]

theorem cleaned_foldl
    (keyed : state.Keyed)
    (distinct : keys.Nodup) :
    Cleaned env keys state (keys.foldl (cleanLock env) state) := by
  induction keys generalizing state with
  | nil => exact cleaned_nil env state
  | cons key rest ih =>
    obtain ⟨fresh, restDistinct⟩ := List.nodup_cons.mp distinct
    have first := cleaned_cleanLock keyed env key
    exact first.cons (ih (first.keyed keyed) restDistinct) fresh

/-- What the whole cleanup does. -/
theorem cleaned_cleanTransactionLocksList
    (keyed : state.Keyed)
    (env : SwiftTxEnv) :
    Cleaned env (state.mapTxLocks.entries.map Prod.fst) state
      (state.cleanTransactionLocksList env) :=
  cleaned_foldl keyed state.mapTxLocks.nodup_keys

section Whole

/-- After a cleanup under all keys, the unexpired locks are left. -/
theorem Cleaned.unexpired_locks
    (cleaned : Cleaned env (state.mapTxLocks.entries.map Prod.fst) state after)
    (txHash : Uint256) (lock : CTransactionLock) :
    after.mapTxLocks.get? txHash = some lock ↔
      state.mapTxLocks.get? txHash = some lock ∧ env.time ≤ lock.nExpiration := by
  rw [cleaned.locks]
  apply and_congr_right
  intro found
  have member : txHash ∈ state.mapTxLocks.entries.map Prod.fst :=
    List.mem_map.mpr ⟨(txHash, lock), (state.mapTxLocks.get?_eq_some_iff _ _).mp found, rfl⟩
  have expired : state.Expired env txHash ↔ lock.nExpiration < env.time := by
    unfold Expired
    simp only [found, Option.some.injEq, exists_eq_left']
  rw [expired, and_iff_right member, Int.not_lt]

/-- A cleanup leaves the inputs that are held. -/
theorem Cleaned.holdsInput_iff
    (cleaned : Cleaned env (state.mapTxLocks.entries.map Prod.fst) state after)
    (txHash : Uint256) (outpoint : COutPoint) :
    after.HoldsInput env txHash outpoint ↔ state.HoldsInput env txHash outpoint := by
  have unexpired : after.Unexpired env txHash ↔ state.Unexpired env txHash := by
    apply exists_congr
    intro lock
    rw [cleaned.unexpired_locks, and_assoc, and_self]
  unfold HoldsInput
  rw [unexpired]
  apply and_congr_right
  intro current
  have kept := ((unexpired_iff env state txHash).mp current).2
  unfold RequestSpends
  rw [(cleaned.frame fun gone => kept gone.2).2]

/-- A cleanup takes the lock of the inputs that expired locks give up. -/
theorem Cleaned.locked_iff
    (cleaned : Cleaned env (state.mapTxLocks.entries.map Prod.fst) state after)
    (outpoint : COutPoint) (txHash : Uint256) :
    after.mapLockedInputs outpoint = some txHash ↔
      state.mapLockedInputs outpoint = some txHash ∧
        ¬ ∃ other, state.FreesInput env other outpoint := by
  rw [cleaned.inputs]
  apply and_congr_right
  intro _
  apply not_congr
  apply exists_congr
  intro other
  apply and_iff_right_of_imp
  rintro ⟨⟨lock, found, _⟩, _⟩
  exact List.mem_map.mpr ⟨(other, lock), (state.mapTxLocks.get?_eq_some_iff _ _).mp found, rfl⟩

end Whole

end SwiftTxState

/-- A cleanup leaves the unexpired locks, no input that an expired or a rejected request has
locked, and every input that a transaction with an unexpired lock has locked. -/
structure ExpiresLocks (env : SwiftTxEnv) (before after : SwiftTxState) : Prop where
  locks : ∀ txHash lock, after.mapTxLocks.get? txHash = some lock ↔
    before.mapTxLocks.get? txHash = some lock ∧ env.time ≤ lock.nExpiration
  held : ∀ outpoint txHash, after.mapLockedInputs outpoint = some txHash →
    after.HoldsInput env txHash outpoint
  kept : ∀ outpoint txHash, before.mapLockedInputs outpoint = some txHash →
    before.HoldsInput env txHash outpoint → after.mapLockedInputs outpoint = some txHash

/-- What a cleanup finds: each locked input is held by the transaction that it is locked
for, or an expired lock whose request is stored gives it up, and not both. -/
structure HeldOrFreed (env : SwiftTxEnv) (state : SwiftTxState) : Prop where
  covered : ∀ outpoint txHash, state.mapLockedInputs outpoint = some txHash →
    state.HoldsInput env txHash outpoint ∨ ∃ other, state.FreesInput env other outpoint
  apart : ∀ outpoint txHash, state.mapLockedInputs outpoint = some txHash →
    state.HoldsInput env txHash outpoint → ¬ ∃ other, state.FreesInput env other outpoint

namespace SwiftTxState.Cleaned

theorem expiresLocks_iff
    (cleaned : Cleaned env (state.mapTxLocks.entries.map Prod.fst) state after) :
    ExpiresLocks env state after ↔ HeldOrFreed env state := by
  constructor
  · intro expires
    constructor
    · intro outpoint txHash locked
      by_cases freed : ∃ other, state.FreesInput env other outpoint
      · exact .inr freed
      · have still := (cleaned.locked_iff outpoint txHash).mpr ⟨locked, freed⟩
        exact .inl ((cleaned.holdsInput_iff txHash outpoint).mp
          (expires.held outpoint txHash still))
    · intro outpoint txHash locked holds
      have still := expires.kept outpoint txHash locked holds
      exact ((cleaned.locked_iff outpoint txHash).mp still).2
  · intro found
    constructor
    · exact cleaned.unexpired_locks
    · intro outpoint txHash still
      obtain ⟨locked, notFreed⟩ := (cleaned.locked_iff outpoint txHash).mp still
      rw [cleaned.holdsInput_iff]
      exact (found.covered outpoint txHash locked).resolve_right notFreed
    · intro outpoint txHash locked holds
      exact (cleaned.locked_iff outpoint txHash).mpr
        ⟨locked, found.apart outpoint txHash locked holds⟩

/-- Where locks expire as they should, the locked inputs are all inputs of requests with an
unexpired lock if no such request waits for its lock to be complete. -/
theorem locked_iff_holdsInput
    (cleaned : Cleaned env (state.mapTxLocks.entries.map Prod.fst) state after)
    (found : HeldOrFreed env state) :
    (∀ outpoint, (after.mapLockedInputs outpoint).isSome ↔
        ∃ txHash, after.HoldsInput env txHash outpoint) ↔
      ∀ outpoint txHash, state.HoldsInput env txHash outpoint →
        ∃ locker, state.mapLockedInputs outpoint = some locker ∧
          state.HoldsInput env locker outpoint := by
  have expires := cleaned.expiresLocks_iff.mpr found
  simp only [cleaned.holdsInput_iff]
  constructor
  · intro exact outpoint txHash holds
    obtain ⟨locker, still⟩ := Option.isSome_iff_exists.mp ((exact outpoint).mpr ⟨txHash, holds⟩)
    exact ⟨locker, ((cleaned.locked_iff outpoint locker).mp still).1,
      (cleaned.holdsInput_iff locker outpoint).mp (expires.held outpoint locker still)⟩
  · intro complete outpoint
    constructor
    · intro some
      obtain ⟨locker, still⟩ := Option.isSome_iff_exists.mp some
      exact ⟨locker, (cleaned.holdsInput_iff locker outpoint).mp
        (expires.held outpoint locker still)⟩
    · rintro ⟨txHash, holds⟩
      obtain ⟨locker, locked, lockerHolds⟩ := complete outpoint txHash holds
      rw [expires.kept outpoint locker locked lockerHolds]
      rfl

end SwiftTxState.Cleaned

/-- An input behind which there is a complete lock and its request is held or given up. -/
theorem InputsBacked.covered
    (backed : InputsBacked state)
    (env : SwiftTxEnv)
    (locked : state.mapLockedInputs outpoint = some txHash) :
    state.HoldsInput env txHash outpoint ∨ ∃ other, state.FreesInput env other outpoint := by
  have spends : state.RequestSpends txHash outpoint := backed.requested outpoint txHash locked
  have present : (state.mapTxLocks.get? txHash).isSome := by
    have complete := backed.complete outpoint txHash locked
    unfold SwiftTxState.isComplete at complete
    cases found : state.mapTxLocks.get? txHash with
    | none =>
      rw [found] at complete
      cases complete
    | some lock => rfl
  by_cases expired : state.Expired env txHash
  · exact .inr ⟨txHash, expired, spends⟩
  · exact .inl ⟨(SwiftTxState.unexpired_iff env state txHash).mpr ⟨present, expired⟩, spends⟩

/-- In every state that a node can reach, a cleanup expires the locks exactly if each locked
input is held or given up.  The locked inputs are then all the inputs of requests with an
unexpired lock, if each of these has its inputs locked.  Where every rejected request finds
its inputs locked or its lock complete, it only matters that no request with an expired lock
gives up an input that another transaction holds. -/
theorem cleanTransactionLocksList_expiresLocks
    {trace : List SwiftTxAction} {state : SwiftTxState}
    (run : swiftTxSystem.Run .empty trace state)
    (env : SwiftTxEnv) :
    (ExpiresLocks env state (state.cleanTransactionLocksList env) ↔ HeldOrFreed env state) ∧
      (HeldOrFreed env state →
        ((∀ outpoint,
            ((state.cleanTransactionLocksList env).mapLockedInputs outpoint).isSome ↔
              ∃ txHash,
                (state.cleanTransactionLocksList env).HoldsInput env txHash outpoint) ↔
          ∀ outpoint txHash, state.HoldsInput env txHash outpoint →
            ∃ locker, state.mapLockedInputs outpoint = some locker ∧
              state.HoldsInput env locker outpoint)) ∧
      (carefulSwiftTxSystem.Run .empty trace state →
        (ExpiresLocks env state (state.cleanTransactionLocksList env) ↔
          ∀ outpoint txHash, state.mapLockedInputs outpoint = some txHash →
            state.HoldsInput env txHash outpoint →
              ¬ ∃ other, state.FreesInput env other outpoint)) := by
  have keyed : state.Keyed := (VotesKept.of_run run).keyed
  have cleaned := SwiftTxState.cleaned_cleanTransactionLocksList keyed env
  refine ⟨cleaned.expiresLocks_iff, cleaned.locked_iff_holdsInput, ?_⟩
  intro careful
  have backed := InputsBacked.of_run careful
  rw [cleaned.expiresLocks_iff]
  constructor
  · exact HeldOrFreed.apart
  · intro apart
    exact ⟨fun outpoint txHash locked => backed.covered env locked, apart⟩

/-- The node of the examples at another time. -/
def lockingEnvAt (time : Int) : SwiftTxEnv :=
  { lockingEnv true with time := time }

/-- When the hour of the lock is over, the cleanup releases the input of the payment. -/
theorem cleanTransactionLocksList_expiresLocks_sixVotes :
    ExpiresLocks (lockingEnvAt 5000) (sixVotes.foldl SwiftTxAction.apply .empty)
        ((sixVotes.foldl SwiftTxAction.apply .empty).cleanTransactionLocksList
          (lockingEnvAt 5000)) ∧
      ((sixVotes.foldl SwiftTxAction.apply .empty).cleanTransactionLocksList
        (lockingEnvAt 5000)).mapLockedInputs ⟨900, 0⟩ = none := by
  have run : swiftTxSystem.Run .empty sixVotes (sixVotes.foldl SwiftTxAction.apply .empty) :=
    LabelledSystem.Run.foldl (fun _ _ _ => rfl) _
  refine ⟨?_, by decide⟩
  refine ((cleanTransactionLocksList_expiresLocks run _).2.2 careful_sixVotes).mpr ?_
  rintro outpoint txHash - ⟨⟨lock, found, current⟩, -⟩
  have expired : ∀ entry ∈ (sixVotes.foldl SwiftTxAction.apply .empty).mapTxLocks.entries,
      entry.2.nExpiration < (lockingEnvAt 5000).time := by
    decide
  rw [SortedMap.get?_eq_some_iff] at found
  exact absurd (expired _ found) (Int.not_lt.mpr current)

/-- A rival payment is requested at first, and has left the memory pool when the payment is
requested and six masternodes vote for it. -/
def votesAfterRival : List SwiftTxAction :=
  .ix (lockingEnvAt 1000) rivalPayment :: .ix (lockingEnvAt 3000) lockedPayment ::
    (List.range 6).map fun n => .txlvote (lockingEnvAt 3000) (voteForPayment n)

/-- A request that the memory pool rejects keeps its input locked after its lock is gone, and
a request whose lock expires releases an input that another transaction has locked, which
still has a complete lock. -/
theorem cleanTransactionLocksList_misses :
    (∃ trace state, swiftTxSystem.Run .empty trace state ∧
      ¬ ExpiresLocks (lockingEnvAt 5000) state
        (state.cleanTransactionLocksList (lockingEnvAt 5000)) ∧
      (state.cleanTransactionLocksList (lockingEnvAt 5000)).mapLockedInputs ⟨900, 0⟩ =
        some 500 ∧
      (state.cleanTransactionLocksList (lockingEnvAt 5000)).mapTxLocks.get? 500 = none) ∧
    ∃ trace state, swiftTxSystem.Run .empty trace state ∧
      ¬ ExpiresLocks (lockingEnvAt 5000) state
        (state.cleanTransactionLocksList (lockingEnvAt 5000)) ∧
      (state.cleanTransactionLocksList (lockingEnvAt 5000)).isComplete 500 = true ∧
      (state.cleanTransactionLocksList (lockingEnvAt 5000)).mapLockedInputs ⟨900, 0⟩ =
        none := by
  constructor
  · set trace : List SwiftTxAction := [.ix (lockingEnv false) lockedPayment]
    set state := trace.foldl SwiftTxAction.apply .empty
    have locked : (state.cleanTransactionLocksList (lockingEnvAt 5000)).mapLockedInputs ⟨900, 0⟩ =
        some 500 := by
      decide
    have gone : (state.cleanTransactionLocksList (lockingEnvAt 5000)).mapTxLocks.get? 500 =
        none := by
      decide
    refine ⟨trace, state, LabelledSystem.Run.foldl (fun _ _ _ => rfl) _, ?_, locked, gone⟩
    intro expires
    obtain ⟨⟨lock, found, -⟩, -⟩ := expires.held ⟨900, 0⟩ 500 locked
    rw [gone] at found
    cases found
  · set state := votesAfterRival.foldl SwiftTxAction.apply .empty
    have locked : state.mapLockedInputs ⟨900, 0⟩ = some 500 := by decide
    have released :
        (state.cleanTransactionLocksList (lockingEnvAt 5000)).mapLockedInputs ⟨900, 0⟩ =
          none := by
      decide
    refine ⟨votesAfterRival, state, LabelledSystem.Run.foldl (fun _ _ _ => rfl) _, ?_,
      by decide, released⟩
    intro expires
    have holds : state.HoldsInput (lockingEnvAt 5000) 500 ⟨900, 0⟩ := by
      refine ⟨?_, lockedPayment, by decide, by decide⟩
      rw [SwiftTxState.Unexpired]
      refine ⟨(state.mapTxLocks.get? 500).getD ⟨0, 0, [], 0, 0⟩, by decide, by decide⟩
    have kept := expires.kept ⟨900, 0⟩ 500 locked holds
    rw [released] at kept
    cases kept

end ColossusCoin
