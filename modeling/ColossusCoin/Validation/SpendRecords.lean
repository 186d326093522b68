import ColossusCoin.Validation.Disconnect
import ColossusCoin.Validation.FailedConnect

/-!
# The serials that blocks record and erase

Connecting a block records the serials that its transactions spend, and disconnecting
it erases them.  Both read the same list off the block.
-/

namespace ColossusCoin

/-- The serials that a transaction spends, each with the hash of the transaction. -/
def CTransaction.spends (txInToZerocoinSpend : CTxIn → Option CoinSpend)
    (tx : CTransaction) : List (CBigNum × Uint256) :=
  if tx.isZerocoinSpend then
    tx.zerocoinSpendInputs.filterMap fun txin =>
      (txInToZerocoinSpend txin).map fun spend => (spend.coinSerialNumber, tx.hash)
  else []

/-- The serials that a block spends. -/
def CBlock.spends (txInToZerocoinSpend : CTxIn → Option CoinSpend) (block : CBlock) :
    List (CBigNum × Uint256) :=
  block.vtx.flatMap (CTransaction.spends txInToZerocoinSpend)

section Loop

variable (env : ConnectEnv) (block : CBlock)

/-- Each serial is unknown to the chain, as far as the lookup finds it there. -/
def Unspent (db : CZerocoinDB) (serials : List (CBigNum × Uint256)) : Prop :=
  ∀ spend ∈ serials, env.chain.isSerialInBlockchain db spend.1 = none

theorem connectSpend_passes
    {env : ConnectEnv} {tx : CTransaction} {txin : CTxIn} {state next : ConnectState}
    (connecting : env.fVerifyingBlocks = false)
    (passes : connectSpend env tx txin state = (none, next)) :
    ∃ spend, env.context.lib.txInToZerocoinSpend txin = some spend ∧
      next.vSpends = state.vSpends ++ [(spend.coinSerialNumber, tx.hash)] ∧
      env.chain.isSerialInBlockchain state.checks.zerocoinDB spend.coinSerialNumber =
        none := by
  unfold connectSpend at passes
  cases decoded : env.context.lib.txInToZerocoinSpend txin with
  | none =>
    rw [decoded] at passes
    cases passes
  | some spend =>
    rw [decoded] at passes
    dsimp only at passes
    split_ifs at passes with contextual
    · cases passes
      refine ⟨spend, rfl, rfl, ?_⟩
      unfold contextualCheckCoinSpend at contextual
      rw [Bool.and_eq_true] at contextual
      cases found : env.chain.isSerialInBlockchain state.checks.zerocoinDB
          spend.coinSerialNumber with
      | none => rfl
      | some nHeightTxSpend =>
        have second := contextual.2
        simp [found, connecting] at second
    · cases passes

/-- The serials that inputs spend. -/
def queuedSpends (txInToZerocoinSpend : CTxIn → Option CoinSpend) (hashTx : Uint256)
    (txins : List CTxIn) : List (CBigNum × Uint256) :=
  txins.filterMap fun txin =>
    (txInToZerocoinSpend txin).map fun spend => (spend.coinSerialNumber, hashTx)

theorem vSpends_of_connectSpends
    {env : ConnectEnv} {tx : CTransaction} {txins : List CTxIn}
    {state next : ConnectState}
    (connecting : env.fVerifyingBlocks = false)
    (passes : Stage.forEach (connectSpend env tx) txins state = (none, next)) :
    next.vSpends =
        state.vSpends ++ queuedSpends env.context.lib.txInToZerocoinSpend tx.hash txins ∧
      Unspent env state.checks.zerocoinDB
        (queuedSpends env.context.lib.txInToZerocoinSpend tx.hash txins) := by
  induction txins generalizing state with
  | nil =>
    cases passes
    simp [Unspent, queuedSpends]
  | cons txin rest ih =>
    obtain ⟨middle, outcome, passes⟩ := Stage.forEach_cons_eq_none passes
    have kept := frame_connectSpend env tx txin state
    rw [outcome] at kept
    obtain ⟨queued, unspent⟩ := ih passes
    obtain ⟨spend, decoded, first, fresh⟩ := connectSpend_passes connecting outcome
    have database : middle.checks.zerocoinDB = state.checks.zerocoinDB :=
      congrArg (fun observed => observed.1.zerocoinDB) kept
    have cons : queuedSpends env.context.lib.txInToZerocoinSpend tx.hash
          (txin :: rest) =
        (spend.coinSerialNumber, tx.hash) ::
          queuedSpends env.context.lib.txInToZerocoinSpend tx.hash rest := by
      simp [queuedSpends, decoded]
    rw [cons]
    refine ⟨by rw [queued, first, List.append_assoc, List.singleton_append], ?_⟩
    rw [database] at unspent
    exact List.forall_mem_cons.mpr ⟨fresh, unspent⟩

theorem vSpends_of_connectTransaction
    {env : ConnectEnv} {block : CBlock} {tx : CTransaction} {state next : ConnectState}
    (connecting : env.fVerifyingBlocks = false)
    (passes : connectTransaction env block tx state = (none, next)) :
    next.vSpends = state.vSpends ++ tx.spends env.context.lib.txInToZerocoinSpend ∧
      Unspent env state.checks.zerocoinDB
        (tx.spends env.context.lib.txInToZerocoinSpend) := by
  obtain ⟨-, reached, nTxValueOut, txundo, view, vtxundo, vPos, nTxOffset, branch, -, -, rfl⟩ :=
    connectTransaction_passes passes
  unfold CTransaction.spends
  split_ifs at branch ⊢ with zerocoin
  · obtain ⟨afterChain, inChain, branch⟩ := Stage.sequence_cons_eq_none branch
    obtain ⟨afterSpends, spends, branch⟩ := Stage.sequence_cons_eq_none branch
    cases branch
    obtain ⟨rfl, _⟩ := Stage.eq_of_rejectIf inChain
    have queued := vSpends_of_connectSpends connecting spends
    exact queued
  · have frame : Stage.Frame ConnectState.outsideCoins
        (Stage.when (!tx.isCoinBase) (Stage.sequence (coinSpendStages env block tx))) :=
      Stage.frame_when (frame_coinSpendStages env block tx)
    have kept := frame { state with nSigOps := state.nSigOps + tx.getLegacySigOpCount }
    rw [branch] at kept
    have same := congrArg Prod.snd kept
    exact ⟨by simpa [ConnectState.outsideCoins] using same, by simp [Unspent]⟩

/-- A loop that passes queues the serials of all transactions, none of which is in the
chain. -/
theorem vSpends_of_forEach
    {env : ConnectEnv} {block : CBlock} {txs : List CTransaction}
    {state final : ConnectState}
    (connecting : env.fVerifyingBlocks = false)
    (passes : Stage.forEach (connectTransaction env block) txs state = (none, final)) :
    final.vSpends =
        state.vSpends ++
          txs.flatMap (CTransaction.spends env.context.lib.txInToZerocoinSpend) ∧
      Unspent env state.checks.zerocoinDB
        (txs.flatMap (CTransaction.spends env.context.lib.txInToZerocoinSpend)) := by
  induction txs generalizing state with
  | nil =>
    cases passes
    simp [Unspent]
  | cons tx rest ih =>
    obtain ⟨next, outcome, passes⟩ := Stage.forEach_cons_eq_none passes
    have kept := frame_connectTransaction env block tx state
    rw [outcome] at kept
    obtain ⟨first, fresh⟩ := vSpends_of_connectTransaction connecting outcome
    obtain ⟨others, othersFresh⟩ := ih passes
    have database : next.checks.zerocoinDB = state.checks.zerocoinDB :=
      congrArg Records.zerocoinDB kept
    rw [database] at othersFresh
    refine ⟨by rw [others, first, List.flatMap_cons, List.append_assoc], ?_⟩
    rw [List.flatMap_cons]
    intro spend member
    rcases List.mem_append.mp member with inFirst | inOthers
    · exact fresh spend inFirst
    · exact othersFresh spend inOthers

end Loop

section Call

/-- Up to the supply, the database gains mints at most. -/
theorem keepsMints_stagesToSupply (env : ConnectEnv) (block : CBlock)
    (fJustCheck fAlreadyChecked : Bool) (world : ConnectWorld) :
    world.checks.KeepsMints
      (Stage.sequence (stagesToSupply env block fJustCheck fAlreadyChecked)
        (ConnectState.start env block world)).2.checks := by
  have kept := @zerocoinDB_stagesToSupply env block fJustCheck fAlreadyChecked world
  cases fAlreadyChecked with
  | true => exact keepsMints_of_eq kept
  | false =>
    exact IsTrans.trans _ _ _
      (keepsMints_checkBlock env.context env.node (!fJustCheck) block world.checks)
      (keepsMints_of_eq kept)

/-- A call that does not succeed leaves the records of spent serials. -/
theorem spends_of_not_accept
    (unaccepted : (connectBlock env block fJustCheck fAlreadyChecked world).1 ≠ .accept) :
    (connectBlock env block fJustCheck fAlreadyChecked
      world).2.checks.zerocoinDB.spends = world.checks.zerocoinDB.spends := by
  have kept := (keepsMints_stagesToSupply env block fJustCheck fAlreadyChecked world).spends
  rw [connectBlock_eq] at unaccepted ⊢
  generalize Stage.sequence (stagesToSupply env block fJustCheck fAlreadyChecked)
    (ConnectState.start env block world) = outcome at kept unaccepted ⊢
  obtain ⟨exit, connected⟩ := outcome
  cases exit with
  | some exit => exact kept
  | none =>
    dsimp only at unaccepted ⊢
    generalize updateZPIVSupply env.context.params env.context.lib env.fraud block
      env.pprev connected.pindex = outcome at unaccepted ⊢
    obtain ⟨exit, supplied⟩ := outcome
    cases exit with
    | accept =>
      have same := records_afterTracking fun accepts => absurd accepts unaccepted
      have database := congrArg Records.zerocoinDB same
      exact (congrArg CZerocoinDB.spends database).trans kept
    | _ => exact kept

/-- Record serials in order. -/
def recordSerials (serials : List (CBigNum × Uint256))
    (spends : CBigNum → Option Uint256) : CBigNum → Option Uint256 :=
  serials.foldl (fun current spend => Function.update current spend.1 (some spend.2)) spends

theorem spends_recordSpends (serials : List (CBigNum × Uint256)) (db : CZerocoinDB) :
    (serials.foldl (fun current spend => current.writeCoinSpend spend.1 spend.2)
      db).spends = recordSerials serials db.spends := by
  unfold recordSerials
  induction serials generalizing db with
  | nil => rfl
  | cons spend rest ih =>
    rw [List.foldl_cons, List.foldl_cons, ih]
    rfl

theorem writeUndo_passes
    (passes : writeUndo env state = (none, next)) :
    next.checks = state.checks ∧ next.vSpends = state.vSpends := by
  unfold writeUndo at passes
  generalize env.findUndoPos = undoPos at passes
  cases undoPos with
  | none =>
    dsimp only at passes
    split_ifs at passes
    · cases passes
      exact ⟨rfl, rfl⟩
    · cases passes
  | some nPos =>
    split_ifs at passes
    · cases passes
      exact ⟨rfl, rfl⟩
    · cases passes
    · cases passes
      exact ⟨rfl, rfl⟩

theorem spends_of_connectWrites
    (passes : Stage.sequence (connectWrites env) state = (none, final)) :
    final.checks.zerocoinDB.spends =
      recordSerials state.vSpends state.checks.zerocoinDB.spends := by
  obtain ⟨written, writes, passes⟩ := Stage.sequence_cons_eq_none passes
  obtain ⟨recorded, records, passes⟩ := Stage.sequence_cons_eq_none passes
  obtain ⟨summed, sums, passes⟩ := Stage.sequence_cons_eq_none passes
  obtain ⟨indexed, indexes, passes⟩ := Stage.sequence_cons_eq_none passes
  obtain ⟨moved, moves, passes⟩ := Stage.sequence_cons_eq_none passes
  cases passes
  cases moves
  cases sums
  cases records
  obtain ⟨checks, queued⟩ := writeUndo_passes writes
  have index : indexed.checks = (databaseChecksums env (recordSpends written)).checks := by
    cases txIndex : env.fTxIndex with
    | false =>
      rw [txIndex] at indexes
      cases indexes
      rfl
    | true =>
      rw [txIndex] at indexes
      cases indexes
      rfl
  have checksums : ∀ (denominations : List CoinDenomination) (db : CZerocoinDB),
      (denominations.foldl (fun current denomination =>
        let bnValue := (recordSpends written).mapAccumulators denomination
        current.writeAccumulatorValue (env.getChecksum bnValue) bnValue) db).spends =
          db.spends := by
    intro denominations
    induction denominations with
    | nil => exact fun _ => rfl
    | cons denomination rest ih =>
      intro db
      rw [List.foldl_cons, ih]
      rfl
  rw [index, ← checks, ← queued]
  exact (checksums _ _).trans (spends_recordSpends written.vSpends _)

theorem isSerialInBlockchain_congr
    (chain : ChainLookup)
    (same : first.spends = second.spends) (bnSerial : CBigNum) :
    chain.isSerialInBlockchain first bnSerial = chain.isSerialInBlockchain second bnSerial := by
  unfold ChainLookup.isSerialInBlockchain
  rw [same]

/-- A call that connects a block records the serials that the block spends, none of
which the lookup finds in the chain. -/
theorem spends_of_accept
    (accepted : (connectBlock env block false fAlreadyChecked world).1 = .accept)
    (notGenesis : block.hash ≠ env.context.params.hashGenesisBlock)
    (connecting : env.fVerifyingBlocks = false) :
    (connectBlock env block false fAlreadyChecked world).2.checks.zerocoinDB.spends =
        recordSerials (block.spends env.context.lib.txInToZerocoinSpend)
          world.checks.zerocoinDB.spends ∧
      Unspent env world.checks.zerocoinDB
        (block.spends env.context.lib.txInToZerocoinSpend) := by
  obtain ⟨checked, connected, rewarded, passed⟩ :=
    connectBlock_accept (Prod.ext accepted rfl) notGenesis
  obtain ⟨supplied, rewards⟩ := rewardsAccepted passed.rewards
  have reached : Stage.sequence (stagesToSupply env block false fAlreadyChecked)
      (ConnectState.start env block world) = (none, connected) := by
    unfold stagesToSupply
    rw [Stage.sequence_append, passed.checks]
    dsimp only
    rw [Stage.sequence_cons, passed.transactions]
    rfl
  have before := (keepsMints_stagesToSupply env block false fAlreadyChecked world).spends
  rw [reached] at before
  have loopKept := frame_connectTransactions env block checked
  rw [passed.transactions] at loopKept
  have checksKept := frame_connectChecks env block false fAlreadyChecked
    (ConnectState.start env block world)
  rw [passed.checks] at checksKept
  simp only [Prod.mk.injEq] at checksKept
  have empty : checked.vSpends = [] := checksKept.2.2.2
  obtain ⟨queued, unspent⟩ := vSpends_of_forEach connecting passed.transactions
  rw [empty, List.nil_append] at queued
  have database : checked.checks.zerocoinDB = connected.checks.zerocoinDB :=
    (congrArg Records.zerocoinDB loopKept).symm
  have sameChecks : rewarded.checks = connected.checks :=
    congrArg Prod.fst rewards.locals
  constructor
  · rw [spends_of_connectWrites (passed.writes rfl), rewards.vSpends, queued, sameChecks,
      before]
    rfl
  · intro spend member
    have fresh := unspent spend member
    rw [database] at fresh
    rw [← fresh]
    exact isSerialInBlockchain_congr env.chain before.symm spend.1

end Call

/-- The serials among spends. -/
def serialsOf (spends : List (CBigNum × Uint256)) : List CBigNum :=
  spends.map Prod.fst

section Disconnect

/-- Exactly the records of these serials are erased. -/
def ErasesSerials (serials : List CBigNum) (before after : CZerocoinDB) : Prop :=
  ∀ bnSerial, after.spends bnSerial =
    if bnSerial ∈ serials then none else before.spends bnSerial

theorem ErasesSerials.trans
    (left : ErasesSerials first before middle)
    (right : ErasesSerials second middle after) :
    ErasesSerials (first ++ second) before after := by
  intro bnSerial
  rw [right bnSerial, left bnSerial]
  by_cases inSecond : bnSerial ∈ second
  · simp [inSecond]
  · simp [inSecond]

theorem ErasesSerials.congr_mem
    (erases : ErasesSerials first before after)
    (same : ∀ bnSerial, bnSerial ∈ first ↔ bnSerial ∈ second) :
    ErasesSerials second before after := by
  intro bnSerial
  rw [erases bnSerial]
  simp only [same]

theorem erasesSerials_nil
    (same : after.spends = before.spends) :
    ErasesSerials [] before after := by
  intro bnSerial
  simp [same]

theorem erasesSerials_eraseCoinSpend (db : CZerocoinDB) (bnSerial : CBigNum) :
    ErasesSerials [bnSerial] db (db.eraseCoinSpend bnSerial) := by
  intro other
  simp only [List.mem_singleton]
  exact Function.update_apply db.spends bnSerial none other

theorem spends_eraseCoinMints (outs : List CTxOut) (db : CZerocoinDB) :
    (eraseCoinMints outs db).2.spends = db.spends := by
  induction outs generalizing db with
  | nil => rfl
  | cons txout rest ih =>
    rw [eraseCoinMints]
    cases txOutToPublicCoin txout with
    | none => rfl
    | some pubCoin => exact ih _

theorem zerocoinDB_restoreInputs
    (records : List (CTxIn × CTxInUndo)) (state : DisconnectState) :
    (restoreInputs records state).zerocoinDB = state.zerocoinDB := by
  unfold restoreInputs
  generalize records.reverse = reversed
  induction reversed generalizing state with
  | nil => rfl
  | cons record rest ih =>
    rw [List.foldl_cons, ih]
    rfl

theorem spends_eraseAccumulatorValues (db : CZerocoinDB)
    (nCheckpointErase nCheckpointPrevious : Uint256) :
    (eraseAccumulatorValues db nCheckpointErase nCheckpointPrevious).spends = db.spends := by
  unfold eraseAccumulatorValues
  generalize CoinDenomination.zerocoinDenomList = denominations
  induction denominations generalizing db with
  | nil => rfl
  | cons denomination rest ih =>
    rw [List.foldl_cons, ih]
    dsimp only
    split_ifs <;> rfl

end Disconnect

end ColossusCoin
