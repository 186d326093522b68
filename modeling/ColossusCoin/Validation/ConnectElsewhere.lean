import ColossusCoin.Validation.ConnectLockstep
import ColossusCoin.Validation.ContextualCheckBlock
import ColossusCoin.Validation.LocalChecks

/-!
# Connecting a block that another node connects

Two nodes with the same ancestors of a block connect it with the same coins, spent
serials and amounts.  What is a node's own in `ConnectBlock` are the limits that its
sporks set and the payments that it asks for.  A node on which none of these tests fails
passes every block that some other node passes.
-/

namespace ColossusCoin

/-- What a node has of its own when it validates a block. -/
structure NodeData where
  node : NodeLocal
  masternodes : MasternodeLocal
  state : CValidationState
  /-- No run-time error came before the validation. -/
  running : state.mode ≠ .error
  mints : CBigNum → Option Uint256
  accumulators : Nat → Option CBigNum
  mapRejectedBlocks : Uint256 → Option Int
  bans : BanList
  store : TransactionStore
  mempool : CTxMemPool
  chainHeight : Int
  /-- The status of the index entry, with the data of the block on disk. -/
  nStatus : BlockStatus
  nUndoPos : Nat
  txIndex : Uint256 → Option CDiskTxPos
  fTxIndex : Bool
  nScriptCheckThreads : Bool
  findUndoPos : Option Nat
  undoWritten : Bool

/-- The validation state and the records that the checks of a node write, with serials
spent in the ancestors. -/
def NodeData.checks (own : NodeData) (spends : CBigNum → Option Uint256) : CheckState where
  state := own.state
  zerocoinDB :=
    { mints := own.mints
      spends := spends
      accumulators := own.accumulators }
  mapRejectedBlocks := own.mapRejectedBlocks

/-- The entry with the status and the place of the undo data of another one. -/
def CBlockIndex.withFiles (pindex files : CBlockIndex) : CBlockIndex :=
  { pindex with
    nStatus := files.nStatus
    nUndoPos := files.nUndoPos }

/-- An environment on a node. -/
def ConnectEnv.onNode (env : ConnectEnv) (own : NodeData) : ConnectEnv :=
  { env with
    node := own.node
    masternodes := own.masternodes
    fTxIndex := own.fTxIndex
    nScriptCheckThreads := own.nScriptCheckThreads
    findUndoPos := own.findUndoPos
    undoWritten := own.undoWritten }

@[simp] theorem ConnectEnv.context_onNode (env : ConnectEnv) (own : NodeData) :
    (env.onNode own).context = env.context := rfl

@[simp] theorem ConnectEnv.node_onNode (env : ConnectEnv) (own : NodeData) :
    (env.onNode own).node = own.node := rfl

@[simp] theorem ConnectEnv.pprev_onNode (env : ConnectEnv) (own : NodeData) :
    (env.onNode own).pprev = env.pprev := rfl

/-- Records on a node. -/
def ConnectWorld.onNode (world : ConnectWorld) (own : NodeData) : ConnectWorld where
  checks := own.checks world.checks.zerocoinDB.spends
  view := world.view
  pindex :=
    { world.pindex with
      nStatus := own.nStatus
      nUndoPos := own.nUndoPos }
  txIndex := own.txIndex

/-- Transactions of a block, each with the coins that it is connected on. -/
def viewsInBlock (nHeight : Int) :
    List CTransaction → CCoinsViewCache → List (CTransaction × CCoinsViewCache)
  | [], _ => []
  | tx :: rest, view =>
    (tx, view) ::
      match CCoinsViewCache.updateCoins tx view nHeight with
      | none => []
      | some (_, updated) => viewsInBlock nHeight rest updated

/-- A transaction on its coins spends coins of the transparent kind. -/
def spendsCoins (connected : CTransaction × CCoinsViewCache) : Bool :=
  !connected.1.isZerocoinSpend && !connected.1.isCoinBase

/-- What the inputs of a transaction exceed its outputs by. -/
def surplus (connected : CTransaction × CCoinsViewCache) : Int :=
  (connected.2.getValueIn connected.1).getD 0 - connected.1.getValueOut.getD 0

/-- The fee that a transaction is counted with. -/
def countedFee (connected : CTransaction × CCoinsViewCache) : Int :=
  if spendsCoins connected && !connected.1.isCoinStake then surplus connected else 0

/-- The value of the inputs that a transaction is counted with. -/
def countedValueIn (lib : ZerocoinLib) (connected : CTransaction × CCoinsViewCache) : Int :=
  if connected.1.isZerocoinSpend then
    (connected.1.zerocoinSpendInputs.map fun txin =>
      (lib.txInToZerocoinSpend txin).elim 0 fun spend => spend.denomination.toAmount).sum
  else if connected.1.isCoinBase then 0
  else (connected.2.getValueIn connected.1).getD 0

/-- The fees of a block. -/
def blockFees (nHeight : Int) (block : CBlock) (view : CCoinsViewCache) : Int :=
  ((viewsInBlock nHeight block.vtx view).map countedFee).sum

/-- What the outputs of a block, and its fees, exceed its inputs by. -/
def blockMint (lib : ZerocoinLib) (nHeight : Int) (block : CBlock) (view : CCoinsViewCache) :
    Int :=
  (block.vtx.map CTransaction.valueOutSum).sum -
      ((viewsInBlock nHeight block.vtx view).map (countedValueIn lib)).sum +
    blockFees nHeight block view

/-- A transaction pays less than the fee that the sporks of a node ask for. -/
def paysTooLittle (node : NodeLocal) (nHeight : Int)
    (connected : CTransaction × CCoinsViewCache) : Bool :=
  spendsCoins connected && !connected.1.isCoinStake &&
    node.sporks .enforceMinTxFee ≤ nHeight &&
      surplus connected < node.sporks .txFeeValue * coin

variable {params : CChainParams}

theorem checkInputValues_of_passes
    (passes : checkInputValues params nSpendHeight view txins nValueIn right =
      ((none, next), total))
    (left : CheckState) :
    next = right ∧
      checkInputValues params nSpendHeight view txins nValueIn left = ((none, left), total) := by
  induction txins generalizing nValueIn with
  | nil =>
    cases passes
    exact ⟨rfl, rfl⟩
  | cons txin rest ih =>
    unfold checkInputValues at passes ⊢
    cases found : view.accessCoins txin.prevout.hash with
    | none =>
      rw [found] at passes
      cases passes
    | some coins =>
      rw [found] at passes
      dsimp only at passes ⊢
      split_ifs at passes ⊢ with premature outOfRange
      · cases passes
      · cases passes
      · exact ih passes

theorem checkFee_of_passes
    (passes : checkFee params tx nValueIn right = (none, next))
    (left : CheckState) :
    checkFee params tx nValueIn left = (none, left) := by
  unfold checkFee at passes ⊢
  split_ifs at passes ⊢ with coinStake
  · rfl
  · cases returned : tx.getValueOut with
    | none =>
      rw [returned] at passes
      cases passes
    | some nValueOut =>
      rw [returned] at passes
      dsimp only at passes ⊢
      split_ifs at passes ⊢ with below negative outOfRange
      · cases passes
      · cases passes
      · cases passes
      · rfl

theorem checkScripts_of_passes
    (passes : checkScripts env view tx txins i right = ((none, next), vChecks))
    (verified : vChecks.all id = true)
    (threads : Bool) (left : CheckState) :
    ∃ queued,
      checkScripts { env with nScriptCheckThreads := threads } view tx txins i left =
        ((none, left), queued) ∧
      queued.all id = true := by
  induction txins generalizing i right vChecks with
  | nil => exact ⟨[], rfl, rfl⟩
  | cons txin rest ih =>
    unfold checkScripts at passes ⊢
    cases found : view.accessCoins txin.prevout.hash with
    | none =>
      rw [found] at passes
      cases passes
    | some coins =>
      rw [found] at passes
      dsimp only at passes ⊢
      -- The script of this input verifies, and those of the others pass.
      have step : env.verifyScript env.flags tx i coins = none ∧
          ∃ reached others,
            checkScripts env view tx rest (i + 1) reached = ((none, next), others) ∧
              others.all id = true := by
        split_ifs at passes with queues
        · generalize later : checkScripts env view tx rest (i + 1) right = outcome at passes
          obtain ⟨⟨exit, reached⟩, others⟩ := outcome
          cases passes
          rw [List.all_cons, Bool.and_eq_true] at verified
          exact ⟨Option.isNone_iff_eq_none.mp verified.1, right, others, later, verified.2⟩
        · unfold verifyNow at passes
          cases script : env.verifyScript env.flags tx i coins with
          | none =>
            rw [script] at passes
            exact ⟨rfl, right, vChecks, passes, verified⟩
          | some scriptError =>
            rw [script] at passes
            split_ifs at passes <;> cases passes
      obtain ⟨script, reached, others, later, othersVerified⟩ := step
      obtain ⟨queued, same, allVerified⟩ := ih later othersVerified
      cases threads with
      | true =>
        refine ⟨true :: queued, ?_, ?_⟩
        · rw [if_pos rfl, same, script]
          rfl
        · rw [List.all_cons, allVerified]
          rfl
      | false =>
        refine ⟨queued, ?_, allVerified⟩
        rw [if_neg Bool.false_ne_true]
        unfold verifyNow
        rw [script]
        exact same

/-- Checks of inputs that pass do so whatever else was checked, with and without
threads. -/
theorem checkInputs_of_passes
    (passes : checkInputs params env nSpendHeight tx view right = ((none, next), vChecks))
    (verified : vChecks.all id = true)
    (threads : Bool) (left : CheckState) :
    ∃ queued,
      checkInputs params { env with nScriptCheckThreads := threads } nSpendHeight tx view
        left = ((none, left), queued) ∧
      queued.all id = true := by
  unfold checkInputs at passes ⊢
  by_cases exempt : tx.spendsNoCoins = true
  · rw [if_pos exempt]
    exact ⟨[], rfl, rfl⟩
  by_cases missing : view.haveInputs tx = false
  · rw [if_neg exempt, if_pos missing] at passes
    cases passes
  · rw [if_neg exempt, if_neg missing] at passes ⊢
    cases values : checkInputValues params nSpendHeight view tx.vin 0 right with
    | mk outcome nValueIn =>
      obtain ⟨exit, summed⟩ := outcome
      rw [values] at passes
      cases exit with
      | some exit => cases passes
      | none =>
        rw [(checkInputValues_of_passes values left).2]
        dsimp only at passes ⊢
        cases fee : checkFee params tx nValueIn summed with
        | mk exit paid =>
          rw [fee] at passes
          cases exit with
          | some exit => cases passes
          | none =>
            rw [checkFee_of_passes fee left]
            split_ifs at passes ⊢ with checked
            · exact checkScripts_of_passes passes verified threads left
            · exact ⟨[], rfl, rfl⟩

/-! ## Two runs of the loop -/

/-- Two runs are at the same place of a block, with transactions left, and agree on what
is not a node's own.  The first one is running and no script has failed in it, and the
transactions left pay the fees that its node asks for, or rejections are excused. -/
structure Abreast (excused : CheckState → Prop) (first : NodeData)
    (items : List CTransaction) (left right : ConnectState) : Prop where
  running : left.checks.state.mode ≠ .error
  view : left.view = right.view
  pindex : left.pindex = right.pindex.withFiles left.pindex
  nSigOps : left.nSigOps = right.nSigOps
  nFees : left.nFees = right.nFees
  nValueIn : left.nValueIn = right.nValueIn
  nValueOut : left.nValueOut = right.nValueOut
  spends : left.checks.zerocoinDB.spends = right.checks.zerocoinDB.spends
  control : left.control = true
  fees : ExcusesRejections excused ∨
    ∀ connected ∈ viewsInBlock left.pindex.nHeight items left.view,
      paysTooLittle first.node left.pindex.nHeight connected = false

/-- No queued script has failed. -/
def ScriptsHold (state : ConnectState) : Prop :=
  state.control = true

namespace Abreast

theorem nHeight (abreast : Abreast excused first items left right) :
    left.pindex.nHeight = right.pindex.nHeight := by
  rw [abreast.pindex]
  rfl

theorem nTime (abreast : Abreast excused first items left right) :
    left.pindex.nTime = right.pindex.nTime := by
  rw [abreast.pindex]
  rfl

end Abreast

section Loop

variable {excused : CheckState → Prop} {env : ConnectEnv} {first second : NodeData}
variable {block : CBlock} {items rest : List CTransaction} {tx : CTransaction}

/-- What excuses the validation state excuses a run. -/
abbrev ExcusedRun (excused : CheckState → Prop) (state : ConnectState) : Prop :=
  excused state.checks

/-- A stage of the first node follows the stage of the second one with the same
transactions left. -/
abbrev FollowsAbreast (excused : CheckState → Prop) (first : NodeData)
    (items : List CTransaction) (leftStage rightStage : Stage ConnectState) : Prop :=
  Stage.Follows ScriptsHold (ExcusedRun excused) (Abreast excused first items)
    (Abreast excused first items) leftStage rightStage

theorem follows_rejectSigOps : FollowsAbreast excused first items rejectSigOps rejectSigOps := by
  apply Stage.follows_sharedTest
  intro left right abreast
  rw [abreast.nSigOps]

theorem follows_connectSpend (txin : CTxIn) :
    FollowsAbreast excused first items (connectSpend (env.onNode first) tx txin)
      (connectSpend (env.onNode second) tx txin) := by
  constructor
  · intro right next passed alive
    unfold connectSpend at passed
    split at passed
    · cases passed
    · dsimp only at passed
      split_ifs at passed
      · cases passed
        exact alive
      · cases passed
  · intro left right next abreast passed _
    unfold connectSpend at passed ⊢
    rw [ConnectEnv.context_onNode] at passed ⊢
    cases decoded : env.context.lib.txInToZerocoinSpend txin with
    | none =>
      rw [decoded] at passed
      cases passed
    | some spend =>
      rw [decoded] at passed
      dsimp only at passed ⊢
      have same : contextualCheckCoinSpend (env.onNode first) left.checks.zerocoinDB
            left.pindex.nHeight spend =
          contextualCheckCoinSpend (env.onNode second) right.checks.zerocoinDB
            right.pindex.nHeight spend := by
        unfold contextualCheckCoinSpend ChainLookup.isSerialInBlockchain
        rw [abreast.spends, abreast.nHeight]
        rfl
      rw [same]
      split_ifs at passed ⊢ with fresh
      · cases passed
        exact { abreast with nValueIn := congrArg (· + _) abreast.nValueIn }
      · cases passed

theorem follows_zerocoinSpendStages :
    FollowsAbreast excused first items
      (Stage.sequence (zerocoinSpendStages (env.onNode first) tx))
      (Stage.sequence (zerocoinSpendStages (env.onNode second) tx)) := by
  apply Stage.follows_sequence
  unfold zerocoinSpendStages
  simp only [List.forall₂_cons, List.Forall₂.nil, and_true]
  constructor
  · apply Stage.follows_sharedTest
    intro left right abreast
    unfold alreadyInChain
    rw [abreast.nHeight]
    rfl
  · exact @Stage.follows_forEach _ _ _ _ _ (fun _ => Abreast excused first items) _ _ _
      fun txin _ _ => follows_connectSpend txin

theorem follows_addP2SHSigOps :
    FollowsAbreast excused first items (addP2SHSigOps tx) (addP2SHSigOps tx) := by
  constructor
  · intro right next passed alive
    unfold addP2SHSigOps at passed
    split at passed <;> cases passed
    exact alive
  · intro left right next abreast passed _
    unfold addP2SHSigOps at passed ⊢
    rw [abreast.view]
    cases counted : right.view.getP2SHSigOpCount tx with
    | none =>
      rw [counted] at passed
      cases passed
    | some n =>
      rw [counted] at passed
      cases passed
      exact { abreast with nSigOps := congrArg (· + n) abreast.nSigOps }

theorem follows_addValueIn : FollowsAbreast excused first items (addValueIn tx) (addValueIn tx) := by
  constructor
  · intro right next passed alive
    unfold addValueIn at passed
    split at passed
    · cases passed
    · dsimp only at passed
      split_ifs at passed
      · cases passed
        exact alive
      · split at passed <;> cases passed
        exact alive
  · intro left right next abreast passed _
    unfold addValueIn at passed ⊢
    rw [abreast.view]
    cases counted : right.view.getValueIn tx with
    | none =>
      rw [counted] at passed
      cases passed
    | some nTxValueIn =>
      rw [counted] at passed
      have valueIn := congrArg (· + nTxValueIn) abreast.nValueIn
      split_ifs at passed ⊢ with coinStake
      · cases passed
        exact { abreast with nValueIn := valueIn }
      · cases returned : tx.getValueOut with
        | none =>
          rw [returned] at passed
          cases passed
        | some nTxValueOut =>
          rw [returned] at passed
          cases passed
          exact
            { abreast with
              nValueIn := valueIn
              nFees := congrArg (· + (nTxValueIn - nTxValueOut)) abreast.nFees }

theorem follows_checkInputsStage :
    FollowsAbreast excused first items (checkInputsStage (env.onNode first) block tx)
      (checkInputsStage (env.onNode second) block tx) := by
  constructor
  · intro right next passed alive
    unfold checkInputsStage at passed
    generalize checkInputs _ _ _ tx right.view right.checks = outcome at passed
    obtain ⟨⟨exit, after⟩, vChecks⟩ := outcome
    cases passed
    exact (Bool.and_eq_true_iff.mp alive).1
  · intro left right next abreast passed alive
    unfold checkInputsStage at passed ⊢
    have sameScripts : (env.onNode first).scriptEnv block left.pindex =
        { (env.onNode second).scriptEnv block right.pindex with
          nScriptCheckThreads := first.nScriptCheckThreads } := by
      unfold ConnectEnv.scriptEnv
      rw [abreast.nHeight, abreast.nTime]
      rfl
    rw [ConnectEnv.context_onNode, ConnectEnv.pprev_onNode] at passed ⊢
    rw [sameScripts]
    cases checked : checkInputs env.context.params
        ((env.onNode second).scriptEnv block right.pindex)
        (env.pprev.elim 0 fun prev => prev.nHeight + 1) tx right.view
        right.checks with
    | mk outcome vChecks =>
      obtain ⟨exit, after⟩ := outcome
      rw [checked] at passed
      cases passed
      obtain ⟨_, verified⟩ := Bool.and_eq_true_iff.mp alive
      obtain ⟨queued, same, allVerified⟩ := checkInputs_of_passes checked verified
        first.nScriptCheckThreads left.checks
      have kept := (@endsAtInputs_checkInputs env.context.params
        ((env.onNode second).scriptEnv block right.pindex) right.view tx right.checks
        (env.pprev.elim 0 fun prev => prev.nHeight + 1)).outsideState
      rw [checked] at kept
      have spends := congrArg (fun outside => outside.1.spends) kept
      rw [← abreast.view] at same
      rw [same]
      exact
        { abreast with
          spends := abreast.spends.trans spends.symm
          control := by
            rw [abreast.control, allVerified]
            rfl }

theorem follows_minFeeStage
    (notZerocoin : tx.isZerocoinSpend = false)
    (notCoinBase : tx.isCoinBase = false) :
    FollowsAbreast excused first (tx :: rest) (minFeeStage (env.onNode first) tx)
      (minFeeStage (env.onNode second) tx) := by
  constructor
  · intro right next passed alive
    unfold minFeeStage at passed
    split at passed
    · split_ifs at passed <;> cases passed
      exact alive
    · cases passed
    · cases passed
  · intro left right next abreast passed _
    unfold minFeeStage at passed ⊢
    rw [← abreast.view] at passed
    cases counted : left.view.getValueIn tx with
    | none =>
      rw [counted] at passed
      cases passed
    | some nTxValueIn =>
      rw [counted] at passed
      cases returned : tx.getValueOut with
      | none =>
        rw [returned] at passed
        cases passed
      | some nTxValueOut =>
        rw [returned] at passed
        dsimp only at passed ⊢
        have unchanged : next = right := by
          split_ifs at passed <;> cases passed
          rfl
        subst unchanged
        split_ifs with refused
        · have excuses := abreast.fees.resolve_right fun enough => by
            have pays := enough (tx, left.view) List.mem_cons_self
            unfold paysTooLittle spendsCoins surplus at pays
            rw [notZerocoin, notCoinBase, counted, returned] at pays
            exact Bool.false_ne_true (pays.symm.trans refused)
          exact excuses _ abreast.running _ _ _
        · exact abreast

theorem follows_coinSpendStages
    (notZerocoin : tx.isZerocoinSpend = false)
    (notCoinBase : tx.isCoinBase = false) :
    FollowsAbreast excused first (tx :: rest)
      (Stage.sequence (coinSpendStages (env.onNode first) block tx))
      (Stage.sequence (coinSpendStages (env.onNode second) block tx)) := by
  apply Stage.follows_sequence
  unfold coinSpendStages
  simp only [List.forall₂_cons, List.Forall₂.nil, and_true]
  refine ⟨?inputs, ?outPoints, follows_addP2SHSigOps, follows_rejectSigOps,
    follows_addValueIn, follows_checkInputsStage, follows_minFeeStage notZerocoin notCoinBase⟩
  case inputs =>
    apply Stage.follows_sharedTest
    intro left right abreast
    rw [abreast.view]
  case outPoints =>
    apply Stage.follows_sharedTest
    intro left right abreast
    rw [abreast.nHeight]
    rfl

theorem follows_addValueOut :
    FollowsAbreast excused first items (addValueOut tx) (addValueOut tx) := by
  constructor
  · intro right next passed alive
    unfold addValueOut at passed
    split at passed <;> cases passed
    exact alive
  · intro left right next abreast passed _
    unfold addValueOut at passed ⊢
    cases returned : tx.getValueOut with
    | none =>
      rw [returned] at passed
      cases passed
    | some nTxValueOut =>
      rw [returned] at passed
      cases passed
      exact { abreast with nValueOut := congrArg (· + nTxValueOut) abreast.nValueOut }

/-- The coins change, and a transaction less is left. -/
theorem follows_applyTransaction :
    Stage.Follows ScriptsHold (ExcusedRun excused) (Abreast excused first (tx :: rest))
      (Abreast excused first rest) (applyTransaction tx) (applyTransaction tx) := by
  constructor
  · intro right next passed alive
    unfold applyTransaction at passed
    split at passed <;> cases passed
    exact alive
  · intro left right next abreast passed _
    have others := abreast.fees
    unfold viewsInBlock at others
    unfold applyTransaction at passed ⊢
    rw [← abreast.view, ← abreast.nHeight] at passed
    cases applied : CCoinsViewCache.updateCoins tx left.view left.pindex.nHeight with
    | none =>
      rw [applied] at passed
      cases passed
    | some result =>
      rw [applied] at passed others
      cases passed
      exact
        { abreast with
          view := rfl
          fees := others.imp_right fun pay connected member =>
            pay connected (List.mem_cons_of_mem _ member) }

/-- The first node connects a transaction that the second one connects, unless zerocoin
transactions are in maintenance there. -/
theorem follows_connectTransaction
    (working : ExcusesRejections excused ∨
      inMaintenance (env.onNode first) block tx = false) :
    Stage.Follows ScriptsHold (ExcusedRun excused) (Abreast excused first (tx :: rest))
      (Abreast excused first rest)
      (connectTransaction (env.onNode first) block tx)
      (connectTransaction (env.onNode second) block tx) := by
  have counts : FollowsAbreast excused first (tx :: rest)
      (Stage.update fun state : ConnectState =>
        { state with nSigOps := state.nSigOps + tx.getLegacySigOpCount })
      (Stage.update fun state : ConnectState =>
        { state with nSigOps := state.nSigOps + tx.getLegacySigOpCount }) := by
    apply Stage.follows_update
    · exact fun _ alive => alive
    · intro left right abreast _
      exact
        { abreast with
          nSigOps := congrArg (· + tx.getLegacySigOpCount) abreast.nSigOps }
  have maintains : FollowsAbreast excused first (tx :: rest)
      (Stage.rejectIf (fun _ => inMaintenance (env.onNode first) block tx)
        (ConnectState.dos 100 0 ""))
      (Stage.rejectIf (fun _ => inMaintenance (env.onNode second) block tx)
        (ConnectState.dos 100 0 "")) := by
    apply Stage.follows_rejectIf
    intro left _ abreast _ _
    exact working.symm.imp_right fun excuses => excuses _ abreast.running _ _ _
  have branch : FollowsAbreast excused first (tx :: rest)
      (if tx.isZerocoinSpend then Stage.sequence (zerocoinSpendStages (env.onNode first) tx)
        else Stage.when (!tx.isCoinBase)
          (Stage.sequence (coinSpendStages (env.onNode first) block tx)))
      (if tx.isZerocoinSpend then Stage.sequence (zerocoinSpendStages (env.onNode second) tx)
        else Stage.when (!tx.isCoinBase)
          (Stage.sequence (coinSpendStages (env.onNode second) block tx))) := by
    split_ifs with zerocoin
    · exact follows_zerocoinSpendStages
    · apply Stage.follows_when
      intro spends
      exact follows_coinSpendStages (by simpa using zerocoin) (by simpa using spends)
  exact Stage.follows_sequence_cons counts
    (Stage.follows_sequence_cons follows_rejectSigOps
      (Stage.follows_sequence_cons maintains
        (Stage.follows_sequence_cons branch
          (Stage.follows_sequence_cons follows_addValueOut
            (Stage.follows_sequence_cons follows_applyTransaction Stage.follows_sequence_nil)))))

theorem follows_connectTransactions
    (working : ExcusesRejections excused ∨
      ∀ tx ∈ block.vtx, inMaintenance (env.onNode first) block tx = false) :
    Stage.Follows ScriptsHold (ExcusedRun excused) (Abreast excused first block.vtx)
      (Abreast excused first [])
      (connectTransactions (env.onNode first) block)
      (connectTransactions (env.onNode second) block) :=
  Stage.follows_forEach fun tx _ inBlock =>
    follows_connectTransaction (working.imp_right fun works => works tx inBlock)

end Loop

end ColossusCoin
