import ColossusCoin.Validation.OwnTests

/-!
# Which blocks are marked as failed

`AcceptBlock` and `ConnectTip` mark the index entry of a block that violates a rule,
unless the block may be corrupted.  Some of the tests that they make are a node's own: they
ask its clock, its transaction locks, the mints it has recorded, its memory pool, its sporks
and its votes on payments.  A block that another node with the same ancestors accepts is
marked exactly when one of these tests fails.
-/

namespace ColossusCoin

/-- The entry is marked `BLOCK_FAILED_VALID` after a call that ends so. -/
def marksFailed (outcome : Exit × CValidationState) : Bool :=
  outcome.1 == .reject && outcome.2.isInvalid && !outcome.2.corruptionPossible

section Calls

variable (env : ConnectEnv) (addresses : AddressLib) (world : ConnectWorld)
variable (block : CBlock)

/-- What the contextual checks of a node depend on. -/
def NodeData.contextualEnv (own : NodeData) : ContextualEnv where
  params := env.context.params
  bans := own.bans
  addresses := addresses
  store := own.store
  chainHeight := own.chainHeight
  adjustedTime := own.node.adjustedTime

/-- `ContextualCheckBlock` on a node. -/
def NodeData.checkInContext (own : NodeData) (state : CValidationState) :
    Exit × CValidationState :=
  contextualCheckBlock (own.contextualEnv env addresses) env.ancestors block own.mempool state

/-- The checks of `AcceptBlock` whose failure may mark the entry. -/
def acceptBlockChecks (fAlreadyCheckedBlock : Bool) (own : NodeData) :
    Exit × CValidationState :=
  if fAlreadyCheckedBlock then own.checkInContext env addresses block own.state
  else
    match checkBlock env.context own.node true block
        (own.checks world.checks.zerocoinDB.spends) with
    | (.accept, checks) => own.checkInContext env addresses block checks.state
    | (exit, failed) => (exit, failed.state)

/-- The outcome of `ConnectBlock` in `ConnectTip`. -/
def connectTipChecks (fAlreadyChecked : Bool) (own : NodeData) : Exit × CValidationState :=
  let outcome := connectBlock (env.onNode own) block false fAlreadyChecked (world.onNode own)
  (outcome.1, outcome.2.checks.state)

/-- The calls that mark entries. -/
inductive MarkingCall where
  | acceptBlock
  | connectTip
  deriving DecidableEq, Repr

/-- How a call ends that was told whether the block was checked before. -/
def MarkingCall.outcome (call : MarkingCall) (fAlreadyChecked : Bool) (own : NodeData) :
    Exit × CValidationState :=
  match call with
  | .acceptBlock => acceptBlockChecks env addresses world block fAlreadyChecked own
  | .connectTip => connectTipChecks env world block fAlreadyChecked own

/-- Some node with the same ancestors accepts the block when it arrives, and connects it
later. -/
def AcceptedSomewhere : Prop :=
  ∃ arriving connecting fAlreadyChecked,
    (acceptBlockChecks env addresses world block false arriving).1 = .accept ∧
      (connectTipChecks env world block fAlreadyChecked connecting).1 = .accept

/-- A call that marks the entry does so for a reason that holds on every node with the same
ancestors: none of them accepts the block. -/
def MarkingCall.MarksObjectively (call : MarkingCall) (fAlreadyChecked : Bool)
    (own : NodeData) : Prop :=
  marksFailed (call.outcome env addresses world block fAlreadyChecked own) = true →
    ¬AcceptedSomewhere env addresses world block

/-- A node finds nothing wrong with a block in the tests of `ContextualCheckBlock` that are
its own: its clock and its height, which stand in for a time or a height of zero, and the
transactions in which it looks for banned addresses. -/
structure PassesContextualTests (own : NodeData) : Prop where
  final : nextHeight env.ancestors = 0 ∨ block.nTime = 0 →
    containsNonFinal (own.contextualEnv env addresses) env.ancestors block = false
  unbanned : spendsBanned (own.contextualEnv env addresses) env.ancestors block
    (lookupWithPool (own.contextualEnv env addresses) own.mempool) = false

/-- A node finds nothing wrong with a block in the tests of a call that are its own. -/
def MarkingCall.OwnTestsPass (call : MarkingCall) (fAlreadyChecked : Bool) (own : NodeData) :
    Prop :=
  (fAlreadyChecked = false → PassesLocalChecks env.context own.node block
      (own.checks world.checks.zerocoinDB.spends).zerocoinDB) ∧
    match call with
    | .acceptBlock => PassesContextualTests env addresses block own
    | .connectTip => block.hash ≠ env.context.params.hashGenesisBlock →
        PassesConnectTests env own block world

/-- A call that checks the block stops at its header, without a mark. -/
def stopsUnmarked (fAlreadyChecked : Bool) (own : NodeData) : Bool :=
  !fAlreadyChecked && block.stopsAtHeader env.context own.node

end Calls

variable {left right : ContextualEnv} {ancestors : List CBlockIndex}

theorem containsNonFinal_congr
    {block : CBlock}
    (height : nextHeight ancestors ≠ 0)
    (time : block.nTime ≠ 0) :
    containsNonFinal left ancestors block = containsNonFinal right ancestors block := by
  have time : (block.nTime : Int) ≠ 0 := by exact_mod_cast time
  unfold containsNonFinal isFinalTx
  simp only [if_neg height, if_neg time]

/-- The height in the coinbase is checked alike on all nodes. -/
theorem checkCoinBaseHeight_of_accept
    {block : CBlock}
    {rightState : CValidationState}
    (params : left.params = right.params)
    (accepts : (Stage.finish (checkCoinBaseHeight right ancestors block rightState)).1 = .accept)
    (leftState : CValidationState) :
    Stage.finish (checkCoinBaseHeight left ancestors block leftState) = (.accept, leftState) := by
  unfold checkCoinBaseHeight at accepts ⊢
  rw [params]
  split_ifs at accepts ⊢ with enforced
  · cases first : block.vtx.head?.bind fun tx => tx.vin.head? with
    | none =>
      rw [first] at accepts
      cases accepts
    | some txin =>
      rw [first] at accepts
      dsimp only at accepts ⊢
      split_ifs at accepts ⊢ with starts
      · rfl
      · cases accepts
  · rfl

/-- A block that passes the contextual checks of one node passes those of a node that finds
nothing wrong with it; any other node rejects it with an excuse. -/
theorem checkInContext_cases
    {excused : CheckState → Prop} {env : ConnectEnv} {addresses : AddressLib}
    {block : CBlock} {own other : NodeData} {state otherState : CValidationState}
    (running : state.mode ≠ .error)
    (pass : ExcusesRejections excused ∨ PassesContextualTests env addresses block own)
    (accepted : (other.checkInContext env addresses block otherState).1 = .accept) :
    ((own.checkInContext env addresses block state).1 = .accept ∧
        PassesContextualTests env addresses block own) ∨
      ∃ failed : CheckState,
        own.checkInContext env addresses block state = (.reject, failed.state) ∧
          excused failed := by
  let checks : CheckState :=
    { state := state
      zerocoinDB := .empty
      mapRejectedBlocks := fun _ => none }
  have rejects : ∀ level reason, ExcusesRejections excused → ∃ failed,
      (Exit.reject, state.dos level rejectInvalid reason) = (.reject, failed.state) ∧
        excused failed := by
    intro level reason excuses
    exact ⟨checks.dos level rejectInvalid reason, rfl, excuses checks running _ _ _⟩
  unfold NodeData.checkInContext contextualCheckBlock at accepted ⊢
  rw [contextualCheckBlockWith_eq] at accepted ⊢
  split_ifs at accepted with otherNonFinal otherBanned
  split_ifs with nonFinal banned
  · -- Another node finds the block final: this one looks at its own clock or height.
    refine Or.inr (rejects 10 _ (pass.resolve_right fun pass => ?_))
    by_cases here : nextHeight env.ancestors = 0 ∨ block.nTime = 0
    · rw [pass.final here] at nonFinal
      cases nonFinal
    · push Not at here
      rw [containsNonFinal_congr here.1 here.2] at nonFinal
      exact otherNonFinal nonFinal
  · refine Or.inr (rejects 100 _ (pass.resolve_right fun pass => ?_))
    rw [pass.unbanned] at banned
    cases banned
  · refine Or.inl ⟨?_, fun _ => by simpa using nonFinal, by simpa using banned⟩
    exact congrArg Prod.fst (checkCoinBaseHeight_of_accept rfl accepted state)

/-! ## The calls -/

section Verdicts

variable {excused : CheckState → Prop} {env : ConnectEnv} {addresses : AddressLib}
variable {world : ConnectWorld} {block : CBlock}
variable {own : NodeData}

theorem running_checks (own : NodeData) (spends : CBigNum → Option Uint256) :
    (own.checks spends).state.mode ≠ .error :=
  own.running

/-- A block that `AcceptBlock` accepts on some node passed `CheckBlock` there, and then the
contextual checks. -/
theorem checked_of_acceptBlock
    (accepted : (acceptBlockChecks env addresses world block false arriving).1 = .accept) :
    ∃ checks state,
      checkBlock env.context arriving.node true block
          (arriving.checks world.checks.zerocoinDB.spends) = (.accept, checks) ∧
        (arriving.checkInContext env addresses block state).1 = .accept := by
  unfold acceptBlockChecks at accepted
  rw [if_neg Bool.false_ne_true] at accepted
  generalize checkBlock env.context arriving.node true block
    (arriving.checks world.checks.zerocoinDB.spends) = outcome at accepted ⊢
  obtain ⟨exit, checks⟩ := outcome
  cases exit with
  | accept => exact ⟨checks, checks.state, rfl, accepted⟩
  | _ => cases accepted

/-- A block that is accepted somewhere either passes `CheckBlock` on a node that has no
objection to it, or is rejected there with an excuse. -/
theorem checkBlock_cases
    (goesOn : block.stopsAtHeader env.context own.node = false)
    (pass : ExcusesRejections excused ∨ PassesLocalChecks env.context own.node block
      (own.checks world.checks.zerocoinDB.spends).zerocoinDB)
    (accepted : (acceptBlockChecks env addresses world block false arriving).1 = .accept) :
    (∃ checks, checkBlock env.context own.node true block
          (own.checks world.checks.zerocoinDB.spends) = (.accept, checks) ∧
        checks.state.mode ≠ .error ∧
        checks.zerocoinDB.spends = world.checks.zerocoinDB.spends ∧
        PassesLocalChecks env.context own.node block
          (own.checks world.checks.zerocoinDB.spends).zerocoinDB) ∨
      ∃ failed, checkBlock env.context own.node true block
          (own.checks world.checks.zerocoinDB.spends) = (.reject, failed) ∧
        excused failed := by
  obtain ⟨_, _, elsewhere, _⟩ := checked_of_acceptBlock accepted
  rcases follows_checkBlock (running_checks own _) goesOn pass elsewhere with
    ⟨checks, accepts, running⟩ | rejects
  · have kept := keepsMints_checkBlock env.context own.node true block
      (own.checks world.checks.zerocoinDB.spends)
    rw [accepts] at kept
    exact Or.inl ⟨checks, accepts, running, kept.spends,
      passesLocalChecks_of_accept (congrArg Prod.fst accepts)⟩
  · exact Or.inr rejects

/-- `AcceptBlock`, for a block that is accepted somewhere: the node finds nothing wrong with
it and does not mark it, or rejects it with an excuse. -/
theorem acceptBlock_cases
    (goesOn : stopsUnmarked env block fAlreadyChecked own = false)
    (pass : ExcusesRejections excused ∨
      MarkingCall.acceptBlock.OwnTestsPass env addresses world block fAlreadyChecked own)
    (accepted : (acceptBlockChecks env addresses world block false arriving).1 = .accept) :
    ((acceptBlockChecks env addresses world block fAlreadyChecked own).1 = .accept ∧
        MarkingCall.acceptBlock.OwnTestsPass env addresses world block fAlreadyChecked own) ∨
      ∃ failed : CheckState,
        acceptBlockChecks env addresses world block fAlreadyChecked own = (.reject, failed.state) ∧
          excused failed := by
  obtain ⟨_, otherState, _, inContext⟩ := checked_of_acceptBlock accepted
  have contextual : ∀ {state : CValidationState}, state.mode ≠ .error → _ :=
    fun running => checkInContext_cases running (pass.imp_right And.right) inContext
  unfold acceptBlockChecks
  cases fAlreadyChecked with
  | true =>
    rw [if_pos rfl]
    refine (contextual own.running).imp_left fun passes => ?_
    exact ⟨passes.1, And.intro (fun unchecked => Bool.noConfusion unchecked) passes.2⟩
  | false =>
    rw [if_neg Bool.false_ne_true]
    rcases @checkBlock_cases excused env addresses world block own arriving goesOn
        (pass.imp_right fun pass => pass.1 rfl) accepted with
      ⟨checks, accepts, running, _, locals⟩ | ⟨failed, rejects, excuse⟩
    · rw [accepts]
      refine (contextual running).imp_left fun passes => ?_
      exact ⟨passes.1, And.intro (fun _ => locals) passes.2⟩
    · rw [rejects]
      exact Or.inr ⟨failed, rfl, excuse⟩

theorem mode_of_connectWrites (env : ConnectEnv) (state : ConnectState) :
    (Stage.sequence (connectWrites env) state).1 = none ∨
      (Stage.sequence (connectWrites env) state).2.checks.state.mode = .error := by
  have undo : (writeUndo env state).1 = none ∨
      (writeUndo env state).2.checks.state.mode = .error := by
    unfold writeUndo
    cases env.findUndoPos with
    | none =>
      dsimp only
      split_ifs
      · exact Or.inl rfl
      · exact Or.inr rfl
    | some nPos =>
      split_ifs
      · exact Or.inl rfl
      · exact Or.inr rfl
      · exact Or.inl rfl
  unfold connectWrites
  rw [Stage.sequence_cons]
  generalize writeUndo env state = outcome at undo ⊢
  obtain ⟨exit, next⟩ := outcome
  cases exit with
  | some exit => exact Or.inr (undo.resolve_left (Option.some_ne_none exit))
  | none =>
    left
    cases env.fTxIndex <;> rfl

/-- The state of `ConnectBlock` behind `CheckBlock`. -/
def checkedStart (env : ConnectEnv) (block : CBlock) (world : ConnectWorld)
    (checks : CheckState) : ConnectState :=
  { ConnectState.start env block world with checks := checks }

/-- `ConnectBlock` on a block that was not checked before, from the outcome of
`CheckBlock`. -/
theorem connectBlock_of_unchecked
    (env : ConnectEnv) (block : CBlock) (world : ConnectWorld) :
    connectBlock env block false false world =
      match checkBlock env.context env.node true block world.checks with
      | (.accept, checks) =>
        Stage.run (stagesAfterCheckBlock env block false false)
          (checkedStart env block world checks)
      | (exit, failed) => (exit, checkedStart env block world failed) := by
  have stages : connectBlock env block false false world =
      Stage.run (checkBlockStage env block false false ::
        stagesAfterCheckBlock env block false false)
        (ConnectState.start env block world) := rfl
  have start : checkBlock env.context env.node (!false) block
      (ConnectState.start env block world).checks =
        checkBlock env.context env.node true block world.checks := rfl
  rw [stages, Stage.run, Stage.sequence_cons, checkBlockStage_eq, start]
  generalize checkBlock env.context env.node true block world.checks = outcome
  obtain ⟨exit, checks⟩ := outcome
  cases exit <;> rfl

/-- What a node that connects a block other than genesis went through behind `CheckBlock`. -/
structure ConnectedElsewhere (env : ConnectEnv) (block : CBlock) (world : ConnectWorld)
    (flag : Bool) (checks : CheckState) (checked connected rewarded : ConnectState) : Prop where
  spends : checks.zerocoinDB.spends = world.checks.zerocoinDB.spends
  checks : Stage.sequence (connectChecks env block false flag).tail
    (checkedStart env block world checks) = (none, checked)
  transactions : connectTransactions env block checked = (none, connected)
  rewards : Stage.sequence (connectRewards env block) connected = (none, rewarded)

theorem connectedElsewhere
    {env : ConnectEnv} {block : CBlock} {world : ConnectWorld} {flag : Bool}
    (notGenesis : block.hash ≠ env.context.params.hashGenesisBlock)
    (accepted : (connectBlock env block false flag world).1 = .accept) :
    ∃ checks checked connected rewarded,
      ConnectedElsewhere env block world flag checks checked connected rewarded := by
  obtain ⟨checked, connected, rewarded, passed⟩ :=
    connectBlock_accept (Prod.ext accepted rfl) notGenesis
  obtain ⟨first, firstPasses, rest⟩ := Stage.sequence_cons_eq_none passed.checks
  cases flag with
  | true =>
    cases firstPasses
    exact ⟨world.checks, checked, connected, rewarded, rfl, rest, passed.transactions,
      passed.rewards⟩
  | false =>
    rw [checkBlockStage_eq] at firstPasses
    have kept := keepsMints_checkBlock env.context env.node (!false) block world.checks
    simp only [Prod.mk.injEq] at firstPasses
    obtain ⟨-, rfl⟩ := firstPasses
    exact ⟨_, checked, connected, rewarded, kept.spends, rest, passed.transactions, passed.rewards⟩

theorem scriptsHold_of_connectRewards
    {env : ConnectEnv} {block : CBlock} {state next : ConnectState}
    (passes : Stage.sequence (connectRewards env block) state = (none, next)) :
    ScriptsHold next := by
  obtain ⟨_, _, passes⟩ := Stage.sequence_cons_eq_none passes
  obtain ⟨_, _, passes⟩ := Stage.sequence_cons_eq_none passes
  obtain ⟨_, _, passes⟩ := Stage.sequence_cons_eq_none passes
  obtain ⟨_, _, passes⟩ := Stage.sequence_cons_eq_none passes
  obtain ⟨_, _, passes⟩ := Stage.sequence_cons_eq_none passes
  obtain ⟨_, control, passes⟩ := Stage.sequence_cons_eq_none passes
  cases passes
  obtain ⟨rfl, holds⟩ := Stage.eq_of_rejectIf control
  unfold ScriptsHold
  simpa using holds

theorem afterCheckBlock_genesis
    {env : ConnectEnv} {flag : Bool}
    (genesis : block.hash = env.context.params.hashGenesisBlock)
    (state : ConnectState) :
    (Stage.run (stagesAfterCheckBlock env block false flag) state).1 ≠ .reject := by
  have isGenesis : (block.hash == env.context.params.hashGenesisBlock) = true := by
    simpa using genesis
  have shape : stagesAfterCheckBlock env block false flag =
      Stage.assert (fun state =>
        (env.pprev.elim 0 CBlockIndex.hash) == state.view.toView.getBestBlock) ::
      Stage.acceptIf (fun _ => block.hash == env.context.params.hashGenesisBlock)
        (fun state => { state with view := state.view.setBestBlock state.pindex.hash }) ::
      (stagesAfterCheckBlock env block false flag).drop 2 := rfl
  rw [shape, isGenesis, Stage.run, Stage.sequence_cons]
  unfold Stage.assert
  split_ifs
  · dsimp only
    rw [Stage.sequence_cons]
    exact Exit.noConfusion
  · exact Exit.noConfusion

theorem afterCheckBlock_eq
    {env : ConnectEnv} {flag : Bool} {start checked connected rewarded : ConnectState}
    (checks : Stage.sequence (connectChecks env block false flag).tail start = (none, checked))
    (transactions : connectTransactions env block checked = (none, connected))
    (rewards : Stage.sequence (connectRewards env block) connected = (none, rewarded)) :
    Stage.run (stagesAfterCheckBlock env block false flag) start =
      Stage.run (connectWrites env) rewarded := by
  unfold stagesAfterCheckBlock Stage.run
  rw [Stage.sequence_append, checks]
  dsimp only
  rw [Stage.sequence_cons, transactions]
  dsimp only
  rw [Stage.sequence_append, rewards]
  rfl

/-- Behind `CheckBlock`, for a block that is connected elsewhere: the node finds nothing
wrong with it and does not mark it, or rejects it with an excuse. -/
theorem afterCheckBlock_cases
    {connecting : NodeData} {flag otherFlag : Bool} {checks rightChecks : CheckState}
    {checkedRight connectedRight rewardedRight : ConnectState}
    (notGenesis : block.hash ≠ env.context.params.hashGenesisBlock)
    (running : checks.state.mode ≠ .error)
    (spends : checks.zerocoinDB.spends = world.checks.zerocoinDB.spends)
    (pass : ExcusesRejections excused ∨ PassesConnectTests env own block world)
    (elsewhere : ConnectedElsewhere (env.onNode connecting) block (world.onNode connecting)
      otherFlag rightChecks checkedRight connectedRight rewardedRight) :
    let outcome := Stage.run (stagesAfterCheckBlock (env.onNode own) block false flag)
      (checkedStart (env.onNode own) block (world.onNode own) checks)
    (marksFailed (outcome.1, outcome.2.checks.state) = false ∧
        PassesConnectTests env own block world) ∨
      outcome.1 = .reject ∧ excused outcome.2.checks := by
  intro outcome
  let left := checkedStart (env.onNode own) block (world.onNode own) checks
  let right := checkedStart (env.onNode connecting) block (world.onNode connecting) rightChecks
  have abreast : AbreastAt excused own block.vtx world.pindex.nHeight left right :=
    { abreast :=
        { running := running
          view := rfl
          pindex := rfl
          nSigOps := rfl
          nFees := rfl
          nValueIn := rfl
          nValueOut := rfl
          spends := spends.trans elsewhere.spends.symm
          control := rfl
          fees := pass.imp_right fun pass => pass.enough }
      height := rfl }
  have uncounted : Uncounted left := ⟨rfl, rfl, rfl⟩
  have checksFollow := @follows_connectChecks excused env own connecting block block.vtx
    world.pindex.nHeight notGenesis (pass.imp_right fun pass => pass.few) flag otherFlag
  have loopFollow := @follows_connectTransactions excused env own connecting block
    (pass.imp_right fun pass => pass.working)
  have rewardsFollow := @follows_connectRewards excused env own connecting block
    world.pindex.nHeight _ _ (pass.imp_right fun pass => pass.rewards)
  -- No script failed on the other node, as it came to the writes.
  have rewardedLive := scriptsHold_of_connectRewards elsewhere.rewards
  have connectedLive := rewardsFollow.backward elsewhere.rewards rewardedLive
  have checkedLive := loopFollow.backward elsewhere.transactions connectedLive
  rcases (checksFollow.passes abreast elsewhere.checks checkedLive).cases with
    ⟨checkedLeft, leftChecks, abreastChecked⟩ | ⟨failed, rejects, excuse⟩
  swap
  · have ends : outcome = (.reject, failed) := by
      change Stage.run _ left = _
      unfold stagesAfterCheckBlock Stage.run
      rw [Stage.sequence_append, rejects]
      rfl
    rw [ends]
    exact Or.inr ⟨rfl, excuse⟩
  have same := (@eq_of_connectChecks (env.onNode own) block flag left checkedLeft notGenesis
    leftChecks).1
  rw [same] at leftChecks abreastChecked
  rcases (loopFollow.passes abreastChecked.abreast elsewhere.transactions connectedLive).cases with
    ⟨connectedLeft, leftLoop, abreastConnected⟩ | ⟨failed, rejects, excuse⟩
  swap
  · have ends : outcome = (.reject, failed) := by
      change Stage.run _ left = _
      unfold stagesAfterCheckBlock Stage.run
      rw [Stage.sequence_append, leftChecks]
      dsimp only
      rw [Stage.sequence_cons, rejects]
      rfl
    rw [ends]
    exact Or.inr ⟨rfl, excuse⟩
  obtain ⟨fees, minted⟩ := amounts_of_connectTransactions uncounted leftLoop
  have height := congrArg CBlockIndex.nHeight (loopConnected leftLoop).entry
  have counted : AbreastWith excused own world.pindex.nHeight
      (blockFees world.pindex.nHeight block world.view)
      (blockMint env.context.lib world.pindex.nHeight block world.view) connectedLeft
      connectedRight :=
    { abreast := abreastConnected
      height := height
      fees := fees
      minted := minted }
  rcases (rewardsFollow.passes counted elsewhere.rewards rewardedLive).cases with
    ⟨rewardedLeft, leftRewards, _⟩ | ⟨failed, rejects, excuse⟩
  swap
  · have ends : outcome = (.reject, failed) := by
      change Stage.run _ left = _
      unfold stagesAfterCheckBlock Stage.run
      rw [Stage.sequence_append, leftChecks]
      dsimp only
      rw [Stage.sequence_cons, leftLoop]
      dsimp only
      rw [Stage.sequence_append, rejects]
      rfl
    rw [ends]
    exact Or.inr ⟨rfl, excuse⟩
  left
  constructor
  · have ends : outcome = Stage.run (connectWrites (env.onNode own)) rewardedLeft :=
      afterCheckBlock_eq leftChecks leftLoop leftRewards
    rw [ends]
    unfold marksFailed Stage.run Stage.finish
    rcases mode_of_connectWrites (env.onNode own) rewardedLeft with passes | error
    · rw [passes]
      rfl
    · dsimp only
      unfold CValidationState.isInvalid
      rw [error]
      simp
  · exact passesConnectTests_of_passes notGenesis uncounted rfl rfl leftChecks leftLoop leftRewards

/-- `ConnectTip`, for a block that is accepted somewhere: the node finds nothing wrong with
it and does not mark it, or rejects it with an excuse. -/
theorem connectTip_cases
    {otherFlag : Bool}
    (goesOn : stopsUnmarked env block fAlreadyChecked own = false)
    (pass : ExcusesRejections excused ∨
      MarkingCall.connectTip.OwnTestsPass env addresses world block fAlreadyChecked own)
    (accepted : (acceptBlockChecks env addresses world block false arriving).1 = .accept)
    (connected : (connectTipChecks env world block otherFlag connecting).1 = .accept) :
    (marksFailed (connectTipChecks env world block fAlreadyChecked own) = false ∧
        MarkingCall.connectTip.OwnTestsPass env addresses world block fAlreadyChecked own) ∨
      ∃ failed : CheckState,
        connectTipChecks env world block fAlreadyChecked own = (.reject, failed.state) ∧
          excused failed := by
  -- Behind `CheckBlock` the call goes on from the records that it leaves.
  have behind : ∀ checks, checks.state.mode ≠ .error →
      checks.zerocoinDB.spends = world.checks.zerocoinDB.spends →
      let outcome := Stage.run
        (stagesAfterCheckBlock (env.onNode own) block false fAlreadyChecked)
        (checkedStart (env.onNode own) block (world.onNode own) checks)
      (marksFailed (outcome.1, outcome.2.checks.state) = false ∧
          (block.hash ≠ env.context.params.hashGenesisBlock →
            PassesConnectTests env own block world)) ∨
        outcome.1 = .reject ∧ excused outcome.2.checks := by
    intro checks running spends outcome
    by_cases genesis : block.hash = env.context.params.hashGenesisBlock
    · left
      have never := @afterCheckBlock_genesis block (env.onNode own) fAlreadyChecked genesis
        (checkedStart (env.onNode own) block (world.onNode own) checks)
      refine ⟨?_, fun other => absurd genesis other⟩
      unfold marksFailed
      rw [beq_false_of_ne never]
      rfl
    · obtain ⟨rightChecks, checked, connectedRight, rewarded, elsewhere⟩ :=
        @connectedElsewhere (env.onNode connecting) block (world.onNode connecting) otherFlag
          genesis connected
      have cases := @afterCheckBlock_cases excused env world block own connecting
        fAlreadyChecked otherFlag checks rightChecks checked connectedRight rewarded genesis
        running spends (pass.imp_right fun pass => pass.2 genesis) elsewhere
      exact cases.imp_left fun passes => ⟨passes.1, fun _ => passes.2⟩
  have rejection : ∀ {outcome : Exit × ConnectState}, outcome.1 = .reject →
      excused outcome.2.checks → ∃ failed : CheckState,
        (outcome.1, outcome.2.checks.state) = (.reject, failed.state) ∧ excused failed :=
    fun rejects excuse => ⟨_, by rw [rejects], excuse⟩
  cases fAlreadyChecked with
  | true =>
    rcases behind (own.checks world.checks.zerocoinDB.spends) own.running rfl with
      ⟨unmarked, tests⟩ | ⟨rejects, excuse⟩
    · exact Or.inl ⟨unmarked, fun unchecked => Bool.noConfusion unchecked, tests⟩
    · exact Or.inr (rejection rejects excuse)
  | false =>
    unfold connectTipChecks
    rw [connectBlock_of_unchecked]
    dsimp only [ConnectEnv.onNode, ConnectWorld.onNode]
    rcases @checkBlock_cases excused env addresses world block own arriving goesOn
        (pass.imp_right fun pass => pass.1 rfl) accepted with
      ⟨checks, accepts, running, spends, locals⟩ | ⟨failed, rejects, excuse⟩
    · rw [accepts]
      rcases behind checks running spends with ⟨unmarked, tests⟩ | ⟨rejects, excuse⟩
      · exact Or.inl ⟨unmarked, fun _ => locals, tests⟩
      · exact Or.inr (rejection rejects excuse)
    · rw [rejects]
      exact Or.inr ⟨failed, rfl, excuse⟩

end Verdicts

/-- A validation state that marks the entry of a block that is rejected. -/
def Marking (checks : CheckState) : Prop :=
  checks.state.isInvalid = true ∧ checks.state.corruptionPossible = false

/-- Every rejection of a running validation marks, unless the block may be corrupted. -/
theorem excusesRejections_marking : ExcusesRejections Marking := by
  intro checks running level code reason
  unfold Marking CheckState.dos CValidationState.dos CValidationState.isInvalid
  rw [if_neg running]
  exact ⟨rfl, rfl⟩

/-- A block that may be corrupted leaves the entry unmarked. -/
theorem marksFailed_of_corruptionPossible
    (corruption : state.corruptionPossible = true) :
    marksFailed (exit, state) = false := by
  unfold marksFailed
  rw [corruption, Bool.not_true, Bool.and_false]

theorem marksFailed_of_marking
    {failed : CheckState}
    (rejects : outcome = (.reject, failed.state))
    (marking : Marking failed) :
    marksFailed outcome = true := by
  rw [rejects]
  unfold marksFailed
  rw [marking.1, marking.2]
  rfl

theorem marksFailed_of_stopsUnmarked
    {addresses : AddressLib}
    {own : NodeData} (call : MarkingCall)
    (stops : stopsUnmarked env block fAlreadyChecked own = true) :
    marksFailed (call.outcome env addresses world block fAlreadyChecked own) = false := by
  obtain ⟨unchecked, atHeader⟩ := Bool.and_eq_true_iff.mp stops
  rw [Bool.not_eq_true'] at unchecked
  subst unchecked
  obtain ⟨refused, corruption⟩ := checkBlock_of_stopsAtHeader atHeader true
    (own.checks world.checks.zerocoinDB.spends)
  cases call with
  | acceptBlock =>
    unfold MarkingCall.outcome acceptBlockChecks
    rw [if_neg Bool.false_ne_true]
    generalize checkBlock env.context own.node true block
      (own.checks world.checks.zerocoinDB.spends) = outcome at refused corruption ⊢
    obtain ⟨exit, failed⟩ := outcome
    cases refused
    exact marksFailed_of_corruptionPossible corruption
  | connectTip =>
    unfold MarkingCall.outcome connectTipChecks
    rw [connectBlock_of_unchecked]
    dsimp only [ConnectEnv.onNode, ConnectWorld.onNode]
    generalize checkBlock env.context own.node true block
      (own.checks world.checks.zerocoinDB.spends) = outcome at refused corruption ⊢
    obtain ⟨exit, failed⟩ := outcome
    cases refused
    exact marksFailed_of_corruptionPossible corruption

/-- A call on a block that is accepted somewhere, and that it does not stop at the header:
the node finds nothing wrong with the block and does not mark it, or rejects it with an
excuse. -/
theorem MarkingCall.outcome_cases
    {excused : CheckState → Prop} {env : ConnectEnv} {addresses : AddressLib}
    {world : ConnectWorld} {block : CBlock} {fAlreadyChecked : Bool} {own : NodeData}
    (call : MarkingCall)
    (goesOn : stopsUnmarked env block fAlreadyChecked own = false)
    (pass : ExcusesRejections excused ∨
      call.OwnTestsPass env addresses world block fAlreadyChecked own)
    (accepted : AcceptedSomewhere env addresses world block) :
    (marksFailed (call.outcome env addresses world block fAlreadyChecked own) = false ∧
        call.OwnTestsPass env addresses world block fAlreadyChecked own) ∨
      ∃ failed : CheckState,
        call.outcome env addresses world block fAlreadyChecked own = (.reject, failed.state) ∧
          excused failed := by
  obtain ⟨arriving, connecting, flag, arrives, connects⟩ := accepted
  cases call with
  | acceptBlock =>
    refine (acceptBlock_cases goesOn pass arrives).imp_left fun accepts => ?_
    refine ⟨?_, accepts.2⟩
    unfold marksFailed MarkingCall.outcome
    rw [accepts.1]
    rfl
  | connectTip => exact connectTip_cases goesOn pass arrives connects

/-- A synchronized node with locked inputs, and no other data of its own that matters. -/
def lockingNode (mapLockedInputs : COutPoint → Option Uint256) : NodeData where
  node := { (stakeEnv 0).node with mapLockedInputs := mapLockedInputs }
  masternodes := (stakeEnv 0).masternodes
  state := .initial
  running := by decide
  mints := fun _ => none
  accumulators := fun _ => none
  mapRejectedBlocks := fun _ => none
  bans := .initial
  store := unindexedEnv.store
  mempool := .empty false
  chainHeight := superblockHeight - 1
  nStatus := ⟨blockValidTransactions, true, false, false, false⟩
  nUndoPos := 0
  txIndex := fun _ => none
  fTxIndex := false
  nScriptCheckThreads := false
  findUndoPos := some 0
  undoWritten := true

end ColossusCoin
