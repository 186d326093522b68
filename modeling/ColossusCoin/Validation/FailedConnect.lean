import ColossusCoin.Validation.InflationBound
import ColossusCoin.Validation.MintRecords

/-!
# What a failed call of `ConnectBlock` leaves behind

A call that fails, or that only checks, should leave the records that outlive it as
they were.  Two kinds of writes come before such an end: the mints that `CheckBlock`
records, and the supply and the money that are tracked in the index entry.
-/

namespace ColossusCoin

section Call

variable (env : ConnectEnv) (block : CBlock)

/-- The stages of `ConnectBlock` up to the loop over the transactions. -/
def stagesToSupply (fJustCheck fAlreadyChecked : Bool) : List (Stage ConnectState) :=
  connectChecks env block fJustCheck fAlreadyChecked ++ [connectTransactions env block]

/-- The call comes to the tracking of the supply. -/
def ComesToSupply (fJustCheck fAlreadyChecked : Bool) (world : ConnectWorld)
    (connected : ConnectState) : Prop :=
  Stage.sequence (stagesToSupply env block fJustCheck fAlreadyChecked)
    (ConnectState.start env block world) = (none, connected)

/-- The call comes to a mint that is not recorded. -/
def comesToNewMint (fJustCheck fAlreadyChecked : Bool) (world : ConnectWorld) : Bool :=
  !fAlreadyChecked &&
    newMintInBlock env.context env.node (!fJustCheck) block world.checks

/-- What the tracking of the supply and of the money makes of the entry. -/
def trackedEntry (state : ConnectState) : CBlockIndex :=
  match updateZPIVSupply env.context.params env.context.lib env.fraud block env.pprev
      state.pindex with
  | (.accept, supplied) => (trackMoneySupply env { state with pindex := supplied }).pindex
  | (_, supplied) => supplied

/-- The entry holds what the tracking would write: the mints of the block, the counts
of the parent with those of the block, and, unless more zerocoins are spent than there
are, the money supply and the amount minted. -/
structure AlreadyTracked (state : ConnectState) : Prop where
  mints : state.pindex.vMintDenominationsInBlock =
    if env.pprev.isNone then []
    else listedMints env.context.params env.fraud block state.pindex
  supply : ∀ prev, env.pprev = some prev →
    ∀ spends, listedSpends env.context.params env.context.lib env.fraud block
        state.pindex = some spends →
      let minted := (withMints env.context.params env.fraud block prev
        state.pindex).mapZerocoinSupply
      ∀ denomination, state.pindex.mapZerocoinSupply denomination =
        minted denomination - (countedSpends spends minted).count denomination
  money : (updateZPIVSupply env.context.params env.context.lib env.fraud block env.pprev
      state.pindex).1 = .accept →
    state.pindex.nMoneySupply =
        env.pprev.elim 0 CBlockIndex.nMoneySupply + state.nValueOut - state.nValueIn ∧
      state.pindex.nMint = state.nValueOut - state.nValueIn + state.nFees

/-- The call fails, or it only checks. -/
def LeavesUnconnected (fJustCheck : Bool) (exit : Exit) : Prop :=
  exit = .reject ∨ exit = .accept ∧ fJustCheck = true

end Call

section Stages

variable (env : ConnectEnv) (block : CBlock)

theorem frame_rewardChecks :
    Stage.Frame ConnectState.records (Stage.sequence ((connectRewards env block).drop 2)) := by
  apply Stage.frame_sequence
  intro stage member
  simp only [connectRewards, List.drop_succ_cons, List.drop_zero, List.mem_cons,
    List.not_mem_nil, or_false] at member
  rcases member with rfl | rfl | rfl | rfl
  · exact Stage.frame_rejectIf _ fun _ => rfl
  · exact Stage.frame_rejectIf _ fun _ => rfl
  · intro state
    unfold accumulatorStage
    cases validateAccumulatorCheckpoint env block state.pindex.nHeight <;> rfl
  · exact Stage.frame_rejectIf _ fun _ => rfl

/-- The undo data is written, or the block is rejected with its records as they
were. -/
theorem writeUndo_cases (state : ConnectState) :
    (writeUndo env state).1 = none ∨
      (writeUndo env state).1 = some .reject ∧
        (writeUndo env state).2.records = state.records := by
  unfold writeUndo
  cases env.findUndoPos with
  | none =>
    split_ifs
    · exact Or.inl rfl
    · exact Or.inr ⟨rfl, rfl⟩
    · exact Or.inr ⟨rfl, rfl⟩
  | some nPos =>
    split_ifs
    · exact Or.inl rfl
    · exact Or.inr ⟨rfl, rfl⟩
    · exact Or.inl rfl

theorem connectWrites_cases (state : ConnectState) :
    (Stage.sequence (connectWrites env) state).1 = none ∨
      (Stage.sequence (connectWrites env) state).1 = some .reject ∧
        (Stage.sequence (connectWrites env) state).2.records = state.records := by
  unfold connectWrites
  rw [Stage.sequence_cons]
  have undo := writeUndo_cases env state
  generalize writeUndo env state = outcome at undo ⊢
  obtain ⟨exit, next⟩ := outcome
  cases exit with
  | some exit => exact Or.inr (undo.resolve_left (Option.some_ne_none exit))
  | none =>
    refine Or.inl ?_
    cases env.fTxIndex <;> rfl

/-- The stages after the tracking leave the records, unless they succeed in a call
that does not only check. -/
theorem records_afterTracking
    {env : ConnectEnv} {block : CBlock} {fJustCheck : Bool} {state : ConnectState}
    (unconnected :
      (Stage.run ((connectRewards env block).drop 2 ++
        Stage.acceptIf (fun _ => fJustCheck) id :: connectWrites env) state).1 = .accept →
          fJustCheck = true) :
    (Stage.run ((connectRewards env block).drop 2 ++
      Stage.acceptIf (fun _ => fJustCheck) id :: connectWrites env) state).2.records =
        state.records := by
  have kept := frame_rewardChecks env block state
  unfold Stage.run Stage.finish at unconnected ⊢
  rw [Stage.sequence_append] at unconnected ⊢
  generalize Stage.sequence ((connectRewards env block).drop 2) state = outcome
    at kept unconnected ⊢
  obtain ⟨exit, next⟩ := outcome
  cases exit with
  | some exit => exact kept
  | none =>
    rw [← kept]
    cases fJustCheck with
    | true => rfl
    | false =>
      have writes := connectWrites_cases env next
      change (Stage.sequence (connectWrites env) next).1.getD .accept = .accept →
        false = true at unconnected
      rcases writes with passes | ⟨_, same⟩
      · rw [passes] at unconnected
        cases unconnected rfl
      · exact same

theorem updateSupply_eq (state : ConnectState) :
    updateSupply env block state =
      match updateZPIVSupply env.context.params env.context.lib env.fraud block env.pprev
          state.pindex with
      | (.accept, supplied) => (none, { state with pindex := supplied })
      | (.reject, supplied) =>
        (some .reject, { state with pindex := supplied }.dos 100 rejectInvalid "")
      | (exit, supplied) => (some exit, { state with pindex := supplied }) := by
  unfold updateSupply Stage.require
  dsimp only
  generalize updateZPIVSupply env.context.params env.context.lib env.fraud block
    env.pprev state.pindex = outcome
  obtain ⟨exit, supplied⟩ := outcome
  cases exit <;> rfl

/-- The supply is tracked exactly where the entry of the block can be supplied. -/
theorem updateSupply_eq_none_iff {state next : ConnectState} :
    updateSupply env block state = (none, next) ↔
      ∃ supplied, updateZPIVSupply env.context.params env.context.lib env.fraud block env.pprev
          state.pindex = (.accept, supplied) ∧
        { state with pindex := supplied } = next := by
  rw [updateSupply_eq]
  generalize updateZPIVSupply env.context.params env.context.lib env.fraud block env.pprev
    state.pindex = outcome
  obtain ⟨exit, supplied⟩ := outcome
  cases exit <;> simp

/-- `ConnectBlock`, by how it comes to the supply and by the outcome of its
tracking. -/
theorem connectBlock_eq (fJustCheck fAlreadyChecked : Bool) (world : ConnectWorld) :
    connectBlock env block fJustCheck fAlreadyChecked world =
      match Stage.sequence (stagesToSupply env block fJustCheck fAlreadyChecked)
          (ConnectState.start env block world) with
      | (some exit, stopped) => (exit, stopped)
      | (none, connected) =>
        match updateZPIVSupply env.context.params env.context.lib env.fraud block
            env.pprev connected.pindex with
        | (.accept, supplied) =>
          Stage.run ((connectRewards env block).drop 2 ++
              Stage.acceptIf (fun _ => fJustCheck) id :: connectWrites env)
            (trackMoneySupply env { connected with pindex := supplied })
        | (.reject, supplied) =>
          (.reject, { connected with pindex := supplied }.dos 100 rejectInvalid "")
        | (exit, supplied) => (exit, { connected with pindex := supplied }) := by
  have split : connectChecks env block fJustCheck fAlreadyChecked ++
        connectTransactions env block ::
          (connectRewards env block ++
            Stage.acceptIf (fun _ => fJustCheck) id :: connectWrites env) =
      stagesToSupply env block fJustCheck fAlreadyChecked ++
        (updateSupply env block :: Stage.update (trackMoneySupply env) ::
          ((connectRewards env block).drop 2 ++
            Stage.acceptIf (fun _ => fJustCheck) id :: connectWrites env)) := by
    simp [stagesToSupply, connectRewards]
  unfold connectBlock Stage.run Stage.finish
  rw [split, Stage.sequence_append]
  generalize Stage.sequence (stagesToSupply env block fJustCheck fAlreadyChecked)
    (ConnectState.start env block world) = outcome
  obtain ⟨exit, connected⟩ := outcome
  cases exit with
  | some exit => rfl
  | none =>
    dsimp only
    rw [Stage.sequence_cons, updateSupply_eq]
    generalize updateZPIVSupply env.context.params env.context.lib env.fraud block
      env.pprev connected.pindex = outcome
    obtain ⟨exit, supplied⟩ := outcome
    cases exit <;> rfl

/-- A call that does not connect the block leaves the records with which it ends
before the supply, or those with the entry that was tracked, which did not throw. -/
theorem records_of_unconnected
    {env : ConnectEnv} {block : CBlock} {fJustCheck fAlreadyChecked : Bool}
    {world : ConnectWorld}
    (unconnected : LeavesUnconnected fJustCheck
      (connectBlock env block fJustCheck fAlreadyChecked world).1) :
    match Stage.sequence (stagesToSupply env block fJustCheck fAlreadyChecked)
        (ConnectState.start env block world) with
    | (some _, stopped) =>
      (connectBlock env block fJustCheck fAlreadyChecked world).2.records =
        stopped.records
    | (none, connected) =>
      (connectBlock env block fJustCheck fAlreadyChecked world).2.records =
          { connected.records with pindex := trackedEntry env block connected } ∧
        (updateZPIVSupply env.context.params env.context.lib env.fraud block env.pprev
          connected.pindex).1 ≠ .abort := by
  rw [connectBlock_eq] at unconnected ⊢
  generalize Stage.sequence (stagesToSupply env block fJustCheck fAlreadyChecked)
    (ConnectState.start env block world) = outcome at unconnected ⊢
  obtain ⟨exit, connected⟩ := outcome
  cases exit with
  | some exit => rfl
  | none =>
    dsimp only at unconnected ⊢
    unfold trackedEntry
    generalize updateZPIVSupply env.context.params env.context.lib env.fraud block
      env.pprev connected.pindex = outcome at unconnected ⊢
    obtain ⟨exit, supplied⟩ := outcome
    cases exit with
    | accept =>
      refine ⟨records_afterTracking fun accepts => ?_, by simp⟩
      rcases unconnected with rejects | ⟨_, justCheck⟩
      · rw [accepts] at rejects
        cases rejects
      · exact justCheck
    | reject => exact ⟨rfl, by simp⟩
    | abort =>
      rcases unconnected with impossible | ⟨impossible, _⟩ <;> cases impossible
    | assertFails => exact ⟨rfl, by simp⟩

/-- Up to the supply, the entry and the transaction index stay as they are. -/
theorem frame_stagesToSupply (fJustCheck fAlreadyChecked : Bool) :
    Stage.Frame (fun state : ConnectState => (state.pindex, state.txIndex))
      (Stage.sequence (stagesToSupply env block fJustCheck fAlreadyChecked)) := by
  apply Stage.relates_append
  · intro state
    have kept := frame_connectChecks env block fJustCheck fAlreadyChecked state
    simp only [Prod.mk.injEq] at kept ⊢
    exact ⟨kept.1, kept.2.1⟩
  · apply Stage.relates_sequence
    intro stage member
    obtain rfl := List.mem_singleton.mp member
    intro state
    have kept := frame_connectTransactions env block state
    simp only [Prod.mk.injEq]
    exact ⟨congrArg Records.pindex kept, congrArg Records.txIndex kept⟩

/-- After `CheckBlock`, nothing up to the supply changes the database. -/
theorem frame_afterCheckBlock (fJustCheck fAlreadyChecked : Bool) :
    Stage.Frame (fun state : ConnectState => state.checks.zerocoinDB)
      (Stage.sequence ((stagesToSupply env block fJustCheck fAlreadyChecked).drop 1)) := by
  apply Stage.frame_sequence
  intro stage member
  simp only [stagesToSupply, connectChecks, List.cons_append, List.nil_append,
    List.drop_succ_cons, List.drop_zero, List.mem_cons, List.not_mem_nil, or_false]
    at member
  rcases member with rfl | rfl | rfl | rfl | rfl | rfl
  · intro state
    unfold Stage.assert
    split_ifs <;> rfl
  · intro state
    unfold Stage.acceptIf
    split_ifs <;> rfl
  · exact Stage.frame_rejectIf _ fun _ => rfl
  · exact Stage.frame_rejectIf _ fun _ => rfl
  · exact Stage.frame_rejectIf _ fun _ => rfl
  · intro state
    exact congrArg Records.zerocoinDB (frame_connectTransactions env block state)

theorem checkBlockStage_eq (fJustCheck : Bool) (state : ConnectState) :
    checkBlockStage env block fJustCheck false state =
      let outcome := checkBlock env.context env.node (!fJustCheck) block state.checks
      (if outcome.1 = .accept then none else some outcome.1,
        { state with checks := outcome.2 }) := by
  unfold checkBlockStage Stage.when
  rw [Bool.not_false, if_pos rfl, Stage.require_eq]
  simp [id]

/-- Up to the supply, only `CheckBlock` writes to the database. -/
theorem zerocoinDB_stagesToSupply
    (fJustCheck fAlreadyChecked : Bool) (world : ConnectWorld) :
    (Stage.sequence (stagesToSupply env block fJustCheck fAlreadyChecked)
        (ConnectState.start env block world)).2.checks.zerocoinDB =
      (if fAlreadyChecked then world.checks
      else (checkBlock env.context env.node (!fJustCheck) block world.checks).2).zerocoinDB := by
  have kept := frame_afterCheckBlock env block fJustCheck fAlreadyChecked
  have first : stagesToSupply env block fJustCheck fAlreadyChecked =
      checkBlockStage env block fJustCheck fAlreadyChecked ::
        (stagesToSupply env block fJustCheck fAlreadyChecked).drop 1 := rfl
  rw [first, Stage.sequence_cons]
  cases fAlreadyChecked with
  | true => exact kept (ConnectState.start env block world)
  | false =>
    rw [checkBlockStage_eq, if_neg Bool.false_ne_true]
    dsimp only [ConnectState.start]
    split_ifs
    · exact kept _
    · rfl

/-- Up to the supply, a mint is recorded exactly when `CheckBlock` is called and comes
to a new one. -/
theorem decidesMints_stagesToSupply
    (fJustCheck fAlreadyChecked : Bool) (world : ConnectWorld) :
    DecidesMints (comesToNewMint env block fJustCheck fAlreadyChecked world) world.checks
      (Stage.sequence (stagesToSupply env block fJustCheck fAlreadyChecked)
        (ConnectState.start env block world)).2.checks := by
  have kept := @zerocoinDB_stagesToSupply env block fJustCheck fAlreadyChecked world
  cases fAlreadyChecked with
  | true => exact kept
  | false =>
    exact (decidesMints_checkBlock env.context env.node (!fJustCheck) block world.checks).to_eq kept

/-- An entry whose counts and mints alone are set is as before when they are. -/
theorem eq_iff_of_sameButSupply
    (same : SameButSupply before after) :
    after = before ↔
      after.vMintDenominationsInBlock = before.vMintDenominationsInBlock ∧
        ∀ denomination,
          after.mapZerocoinSupply denomination = before.mapZerocoinSupply denomination := by
  obtain ⟨supply, mints, rfl⟩ := same
  constructor
  · intro equal
    exact ⟨congrArg CBlockIndex.vMintDenominationsInBlock equal,
      fun denomination => congrFun (congrArg CBlockIndex.mapZerocoinSupply equal) denomination⟩
  · rintro ⟨sameMints, sameSupply⟩
    dsimp only at sameMints sameSupply
    rw [sameMints, funext sameSupply]

/-- The same for an entry whose money is set as well. -/
theorem money_eq_iff
    (same : SameButSupply before supplied) (nMoneySupply nMint : Int) :
    { supplied with nMoneySupply := nMoneySupply, nMint := nMint } = before ↔
      supplied = before ∧ before.nMoneySupply = nMoneySupply ∧ before.nMint = nMint := by
  obtain ⟨supply, mints, rfl⟩ := same
  constructor
  · intro equal
    refine ⟨?_, (congrArg CBlockIndex.nMoneySupply equal).symm,
      (congrArg CBlockIndex.nMint equal).symm⟩
    have sameMints := congrArg CBlockIndex.vMintDenominationsInBlock equal
    have sameSupply := congrArg CBlockIndex.mapZerocoinSupply equal
    dsimp only at sameMints sameSupply
    rw [sameMints, sameSupply]
  · rintro ⟨equal, rfl, rfl⟩
    exact equal

/-- A supply that is tracked without an exception has spends that decode. -/
theorem listedSpends_isSome
    (decodes : (updateZPIVSupply params lib fraud block pprev pindex).1 ≠ .abort) :
    ∃ spends, listedSpends params lib fraud block pindex = some spends := by
  unfold listedSpends
  cases listed : zerocoinSpendListFromBlock lib fraud
      (decide (params.nBlockRecalculateAccumulators ≤ pindex.nHeight)) block.vtx with
  | some spends => exact ⟨spends, rfl⟩
  | none => simp [updateZPIVSupply, listed] at decodes

theorem supplied_eq_iff
    (decodes : (updateZPIVSupply params lib fraud block pprev pindex).1 ≠ .abort) :
    (updateZPIVSupply params lib fraud block pprev pindex).2 = pindex ↔
      (pindex.vMintDenominationsInBlock =
        if pprev.isNone then [] else listedMints params fraud block pindex) ∧
      ∀ prev, pprev = some prev →
        ∀ spends, listedSpends params lib fraud block pindex = some spends →
          let minted := (withMints params fraud block prev pindex).mapZerocoinSupply
          ∀ denomination, pindex.mapZerocoinSupply denomination =
            minted denomination - (countedSpends spends minted).count denomination := by
  obtain ⟨spends, listed⟩ := listedSpends_isSome block decodes
  have same := sameButSupply_updateZPIVSupply params lib fraud block pprev pindex
  rw [eq_iff_of_sameButSupply same]
  cases pprev with
  | none =>
    unfold listedSpends at listed
    simp [updateZPIVSupply, listed, CBlockIndex.inheritSupply, CBlockIndex.clearMints, eq_comm]
  | some prev =>
    rw [updateZPIVSupply_eq listed prev, vMintDenominationsInBlock_subtractSpends,
      vMintDenominationsInBlock_withMints]
    simp only [mapZerocoinSupply_subtractSpends, Option.isNone_some, Bool.false_eq_true,
      if_false, Option.some.injEq, forall_eq', listed]
    constructor
    · rintro ⟨sameMints, sameSupply⟩
      exact ⟨sameMints.symm, fun denomination => (sameSupply denomination).symm⟩
    · rintro ⟨sameMints, sameSupply⟩
      exact ⟨sameMints.symm, fun denomination => (sameSupply denomination).symm⟩

/-- Where the tracking does not throw, it leaves the entry exactly when the entry is
tracked already. -/
theorem trackedEntry_eq_iff
    (decodes : (updateZPIVSupply env.context.params env.context.lib env.fraud block
      env.pprev state.pindex).1 ≠ .abort) :
    trackedEntry env block state = state.pindex ↔ AlreadyTracked env block state := by
  have supply := supplied_eq_iff block decodes
  have same := sameButSupply_updateZPIVSupply env.context.params env.context.lib env.fraud
    block env.pprev state.pindex
  have parts : AlreadyTracked env block state ↔
      (updateZPIVSupply env.context.params env.context.lib env.fraud block env.pprev
          state.pindex).2 = state.pindex ∧
        ((updateZPIVSupply env.context.params env.context.lib env.fraud block env.pprev
            state.pindex).1 = .accept →
          state.pindex.nMoneySupply =
              env.pprev.elim 0 CBlockIndex.nMoneySupply + state.nValueOut - state.nValueIn ∧
            state.pindex.nMint = state.nValueOut - state.nValueIn + state.nFees) := by
    rw [supply]
    exact ⟨fun tracked => ⟨⟨tracked.mints, tracked.supply⟩, tracked.money⟩,
      fun held => ⟨held.1.1, held.1.2, held.2⟩⟩
  rw [parts]
  unfold trackedEntry
  generalize updateZPIVSupply env.context.params env.context.lib env.fraud block env.pprev
    state.pindex = outcome at same ⊢
  obtain ⟨exit, supplied⟩ := outcome
  cases exit with
  | accept =>
    simp only [true_imp_iff]
    unfold trackMoneySupply
    dsimp only
    rw [money_eq_iff same]
    constructor
    · rintro ⟨equal, money, mint⟩
      exact ⟨equal, money, by omega⟩
    · rintro ⟨equal, money, mint⟩
      exact ⟨equal, money, by omega⟩
  | _ => simp

/-- A call of `ConnectBlock` that fails, or that only checks, leaves the zerocoin
database, the index entry and the transaction index as they were, exactly when it
comes to no mint that is not recorded, and, where it comes to the tracking of the
supply, the entry is tracked already. -/
theorem connectBlock_leaves_records_iff
    {fJustCheck fAlreadyChecked : Bool} {world : ConnectWorld}
    (unconnected : LeavesUnconnected fJustCheck
      (connectBlock env block fJustCheck fAlreadyChecked world).1) :
    (connectBlock env block fJustCheck fAlreadyChecked world).2.records = world.records ↔
      comesToNewMint env block fJustCheck fAlreadyChecked world = false ∧
        ∀ connected,
          ComesToSupply env block fJustCheck fAlreadyChecked world connected →
            AlreadyTracked env block connected := by
  have left := records_of_unconnected unconnected
  have kept := frame_stagesToSupply env block fJustCheck fAlreadyChecked
    (ConnectState.start env block world)
  have minted := (decidesMints_stagesToSupply env block fJustCheck fAlreadyChecked
    world).unchanged_iff
  unfold ComesToSupply
  generalize Stage.sequence (stagesToSupply env block fJustCheck fAlreadyChecked)
    (ConnectState.start env block world) = outcome at left kept minted ⊢
  obtain ⟨exit, reached⟩ := outcome
  simp only [Prod.mk.injEq] at kept
  obtain ⟨entry, index⟩ := kept
  cases exit with
  | some exit =>
    have same : reached.records = world.records ↔
        reached.checks.zerocoinDB = world.checks.zerocoinDB := by
      simp [ConnectState.records, ConnectWorld.records, entry, index,
        ConnectState.start]
    rw [left, same, minted]
    simp
  | none =>
    obtain ⟨left, decodes⟩ := left
    have same : { reached.records with pindex := trackedEntry env block reached } =
          world.records ↔
        reached.checks.zerocoinDB = world.checks.zerocoinDB ∧
          trackedEntry env block reached = reached.pindex := by
      simp [ConnectState.records, ConnectWorld.records, entry, index,
        ConnectState.start]
    rw [left, same, minted, trackedEntry_eq_iff env block decodes]
    simp

end Stages

/-- A transaction that turns an output into a mint of the smallest denomination. -/
def mintTx : CTransaction where
  hash := 8
  nVersion := 1
  vin := [{ prevout := ⟨3, 0⟩, scriptSig := [], nSequence := 0 }]
  vout :=
    [{ nValue := 50 * coin
       scriptPubKey := [Opcode.zerocoinMint, 0, 0, 0, 0, 0, 0x09] }]
  nLockTime := 0

/-- A proof-of-work block with that transaction. -/
def mintingBlock : CBlock :=
  { bareBlock 5 with
    nVersion := 5
    vtx := [bareCoinBase, mintTx] }

/-- A node that takes every public coin as valid. -/
def mintingEnv : ConnectEnv :=
  { stakeEnv 0 with
    context := { bareContext with lib := { bareLib with validate := fun _ => true } } }

/-- The block was checked before, and fails because proof-of-work has ended: it leaves
the records. -/
theorem connectBlock_leaves_records_iff_checkedBefore :
    (connectBlock mintingEnv mintingBlock false true (stakeWorld mintingBlock)).2.records =
      (stakeWorld mintingBlock).records :=
  (connectBlock_leaves_records_iff mintingEnv mintingBlock (Or.inl (by decide))).mpr
    ⟨by decide, by
      intro connected comes
      have stops : (Stage.sequence (stagesToSupply mintingEnv mintingBlock false true)
          (ConnectState.start mintingEnv mintingBlock (stakeWorld mintingBlock))).1 =
        some .reject := by decide
      rw [comes] at stops
      cases stops⟩

/-- Without an earlier check, the same block is rejected and its mint stays recorded;
and a superblock that is only checked leaves its money supply in the entry. -/
theorem connectBlock_leaves_mint_and_money :
    let failed := connectBlock mintingEnv mintingBlock false false (stakeWorld mintingBlock)
    let block := superblockPaying [0x52]
    let checked := connectBlock (stakeEnv 0) block true true (stakeWorld block)
    failed.1 = .reject ∧
      (stakeWorld mintingBlock).checks.zerocoinDB.mints 9 = none ∧
      failed.2.checks.zerocoinDB.mints 9 = some 8 ∧
      checked.1 = .accept ∧
      (stakeWorld block).pindex.nMoneySupply = 0 ∧
      checked.2.pindex.nMoneySupply = 1200 * coin + superblockBudget := by
  decide

end ColossusCoin
