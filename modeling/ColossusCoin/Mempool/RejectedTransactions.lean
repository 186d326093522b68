import ColossusCoin.Mempool.RelayedMints
import ColossusCoin.Validation.ConnectLockstep

/-!
# Blocks after transactions that were rejected or never mined

A node that has checked transactions which no block of its chain contains, against the
same node without them.  Lookups of the chain do not see the difference.  The recorded
mints show it: a block is accepted by both nodes, or by the second one only, when it mints
in another transaction what a checked one minted.
-/

namespace ColossusCoin

/-- A node that validates blocks.  The zero hash stands for no block. -/
structure Validator where
  env : MempoolEnv
  activeHeight_zero : env.activeHeight 0 = none

namespace Validator

/-- No block of the active chain is found for the transaction. -/
def NeverMined (validator : Validator) (hash : Uint256) : Prop :=
  ∀ tx hashBlock, validator.env.store.findTransaction hash true = some (tx, hashBlock) →
    validator.env.activeHeight hashBlock = none

/-- The pools have the same transaction under each hash of the active chain. -/
def SamePool (validator : Validator) (left right : CTxMemPool) : Prop :=
  ∀ hash, right.lookup hash = left.lookup hash ∨ validator.NeverMined hash

/-- The height of the block in which a transaction is found. -/
def heightOf (validator : Validator) (pool : CTxMemPool) (hash : Uint256) : Option Int :=
  match (validator.env.chainLookup pool).getTransaction hash with
  | none => none
  | some (_, hashBlock) => validator.env.activeHeight hashBlock

theorem heightOf_of_neverMined
    {validator : Validator} {hash : Uint256}
    (never : validator.NeverMined hash)
    (pool : CTxMemPool) :
    validator.heightOf pool hash = none := by
  unfold heightOf MempoolEnv.chainLookup getTransaction
  dsimp only
  cases pool.lookup hash with
  | some tx => exact validator.activeHeight_zero
  | none =>
    cases found : validator.env.store.findTransaction hash true with
    | none => rfl
    | some result => exact never result.1 result.2 found

theorem heightOf_eq
    {validator : Validator}
    (same : validator.SamePool left right)
    (hash : Uint256) :
    validator.heightOf right hash = validator.heightOf left hash := by
  rcases same hash with equal | never
  · unfold heightOf MempoolEnv.chainLookup getTransaction
    dsimp only
    rw [equal]
  · rw [heightOf_of_neverMined never, heightOf_of_neverMined never]

theorem isTransactionInChain_eq (validator : Validator) (pool : CTxMemPool)
    (hash : Uint256) :
    (validator.env.chainLookup pool).isTransactionInChain hash = validator.heightOf pool hash := by
  unfold ChainLookup.isTransactionInChain heightOf
  cases (validator.env.chainLookup pool).getTransaction hash with
  | none => rfl
  | some result =>
    dsimp only
    split_ifs with null
    · rw [null]
      exact validator.activeHeight_zero.symm
    · rfl

theorem isSerialInBlockchain_eq (validator : Validator) (pool : CTxMemPool)
    (db : CZerocoinDB) (bnSerial : CBigNum) :
    (validator.env.chainLookup pool).isSerialInBlockchain db bnSerial =
      (db.spends bnSerial).bind (validator.heightOf pool) := by
  unfold ChainLookup.isSerialInBlockchain heightOf
  cases db.spends bnSerial with
  | none => rfl
  | some txHash => rfl

/-- The environment in which the node connects a block. -/
def connectEnv (validator : Validator) (pool : CTxMemPool) : ConnectEnv :=
  { validator.env.connect with chain := validator.env.chainLookup pool }

theorem connectBlock_samePool
    {validator : Validator}
    (same : validator.SamePool left right)
    (block : CBlock) (fJustCheck fAlreadyChecked : Bool) (world : ConnectWorld) :
    connectBlock (validator.connectEnv right) block fJustCheck fAlreadyChecked world =
      connectBlock (validator.connectEnv left) block fJustCheck fAlreadyChecked world := by
  have inChain : ∀ tx state, alreadyInChain (validator.connectEnv right) tx state =
      alreadyInChain (validator.connectEnv left) tx state := by
    intro tx state
    unfold alreadyInChain connectEnv
    rw [isTransactionInChain_eq, isTransactionInChain_eq, heightOf_eq same]
  have spends : ∀ db nHeight spend,
      contextualCheckCoinSpend (validator.connectEnv right) db nHeight spend =
        contextualCheckCoinSpend (validator.connectEnv left) db nHeight spend := by
    intro db nHeight spend
    unfold contextualCheckCoinSpend connectEnv
    rw [isSerialInBlockchain_eq, isSerialInBlockchain_eq, funext (heightOf_eq same)]
  have connected : ∀ tx, connectSpend (validator.connectEnv right) tx =
      connectSpend (validator.connectEnv left) tx := by
    intro tx
    funext txin state
    unfold connectSpend
    simp only [spends]
    rfl
  have stages : ∀ tx, zerocoinSpendStages (validator.connectEnv right) tx =
      zerocoinSpendStages (validator.connectEnv left) tx := by
    intro tx
    unfold zerocoinSpendStages
    rw [connected, funext (inChain tx)]
  have transactions : connectTransactions (validator.connectEnv right) block =
      connectTransactions (validator.connectEnv left) block := by
    unfold connectTransactions
    congr 1
    funext tx
    unfold connectTransaction
    rw [stages]
    rfl
  unfold connectBlock
  rw [transactions]
  rfl

end Validator

/-- Transactions are checked; those that are accepted are never mined. -/
def relaySystem (validator : Validator) : LabelledSystem RelayState TxCall where
  Step node call next :=
    next = (call.apply node).2 ∧
      ((call.apply node).1 ≠ .accept ∨ validator.NeverMined call.tx.hash)

/-- What the second node has beyond the first: mints of checked transactions, and
transactions that are not in the chain. -/
structure RelayState.Extends (validator : Validator) (calls : List TxCall)
    (start node : RelayState) : Prop where
  records : ∀ state, (start.checks state).RecordsMints
    (fun txHash value => ∃ call ∈ calls, call.tx.hash = txHash ∧ call.tx.MintsValue value)
    (node.checks state)
  pool : validator.SamePool start.mempool node.mempool

theorem extends_of_run
    (run : (relaySystem validator).Run start calls node) :
    start.Extends validator calls node := by
  refine @LabelledSystem.Run.traceInvariant _ _ _ _ _ _
    (fun calls node => start.Extends validator calls node) run ?_ ?_
  · exact ⟨fun state => refl _, fun hash => Or.inl rfl⟩
  · rintro past current call next held ⟨rfl, unmined⟩
    constructor
    · intro state
      refine IsTrans.trans _ (current.checks state) _ ?_ ?_
      · apply (held.records state).mono
        rintro txHash value ⟨earlier, member, mints⟩
        exact ⟨earlier, List.mem_append_left [call] member, mints⟩
      · apply (call.recordsMints_apply current state).mono
        intro txHash value mints
        exact ⟨call, List.mem_append_right past (List.mem_singleton_self call), mints⟩
    · intro hash
      rcases held.pool hash with same | never
      · rcases call.lookup_apply current hash with kept | ⟨accepted, rfl⟩
        · exact Or.inl (kept.trans same)
        · exact Or.inr (unmined.resolve_left fun refused => refused accepted)
      · exact Or.inr never

namespace RelayState

/-- How `CheckBlock` ends at the node. -/
def checkBlock (node : RelayState) (validator : Validator) (fCheckMerkleRoot : Bool)
    (block : CBlock) (state : CValidationState) : Exit :=
  (ColossusCoin.checkBlock validator.env.connect.context validator.env.connect.node
    fCheckMerkleRoot block (node.checks state)).1

/-- How `ConnectBlock` ends at the node, on coins, an index entry and a transaction
index. -/
def connectBlock (node : RelayState) (validator : Validator) (fJustCheck
    fAlreadyChecked : Bool) (block : CBlock) (state : CValidationState)
    (world : ConnectWorld) : Exit :=
  (ColossusCoin.connectBlock (validator.connectEnv node.mempool) block fJustCheck
    fAlreadyChecked { world with checks := node.checks state }).1

section Verdicts

variable {start node : RelayState}

theorem checks_eq_withMints
    (extended : start.Extends validator calls node)
    (state : CValidationState) :
    node.checks state = (start.checks state).withMints node.zerocoinDB.mints := by
  have records := extended.records state
  have spends : node.zerocoinDB.spends = start.zerocoinDB.spends := records.keeps.spends
  have accumulators : node.zerocoinDB.accumulators = start.zerocoinDB.accumulators :=
    records.keeps.accumulators
  have rejected : node.mapRejectedBlocks = start.mapRejectedBlocks := records.rejectedBlocks
  unfold RelayState.checks CheckState.withMints
  dsimp only
  rw [rejected, ← spends, ← accumulators]

variable {block : CBlock}

theorem shadowed_of_mintsApart
    (extended : start.Extends validator calls node)
    (apart : block.MintsApart start.zerocoinDB node.zerocoinDB)
    (state : CValidationState) :
    CheckState.Shadowed block.Mints (start.checks state) (node.checks state) where
  same := checks_eq_withMints extended state
  kept := (extended.records state).keeps.mints
  apart := fun value hashTx absent found minter mints =>
    apart minter value mints hashTx absent found

theorem checkBlock_ne_accept_of_not_mintsApart
    (together : ¬block.MintsApart start.zerocoinDB node.zerocoinDB)
    (fCheckMerkleRoot : Bool) (state : CValidationState) :
    node.checkBlock validator fCheckMerkleRoot block state ≠ .accept := by
  unfold CBlock.MintsApart at together
  push Not at together
  obtain ⟨hashTx, value, mints, recorded, _, found, other⟩ := together
  exact ColossusCoin.checkBlock_ne_accept mints found other

theorem connectBlock_ne_accept
    (refused : node.checkBlock validator (!fJustCheck) block state ≠ .accept) :
    node.connectBlock validator fJustCheck false block state world ≠ .accept := by
  unfold RelayState.checkBlock at refused
  unfold RelayState.connectBlock ColossusCoin.connectBlock connectChecks Stage.run Stage.finish
  rw [List.cons_append, Stage.sequence_cons, checkBlockStage_eq]
  dsimp only [ConnectState.start, Validator.connectEnv]
  rw [if_neg refused]
  exact refused

theorem checkBlock_eq
    (extended : start.Extends validator calls node)
    (apart : block.MintsApart start.zerocoinDB node.zerocoinDB)
    (fCheckMerkleRoot : Bool) (state : CValidationState) :
    node.checkBlock validator fCheckMerkleRoot block state =
      start.checkBlock validator fCheckMerkleRoot block state :=
  (checkBlock_inStep validator.env.connect.context validator.env.connect.node
    fCheckMerkleRoot (shadowed_of_mintsApart extended apart state)).1

theorem connectBlock_eq
    {fAlreadyChecked : Bool}
    (extended : start.Extends validator calls node)
    (apart : fAlreadyChecked = true ∨ block.MintsApart start.zerocoinDB node.zerocoinDB)
    (fJustCheck : Bool) (state : CValidationState) (world : ConnectWorld) :
    node.connectBlock validator fJustCheck fAlreadyChecked block state world =
      start.connectBlock validator fJustCheck fAlreadyChecked block state world := by
  unfold RelayState.connectBlock
  rw [Validator.connectBlock_samePool extended.pool]
  refine @connectBlock_inStep _ _ _ _ { world with checks := start.checks state }
    (node.checks state) (checks_eq_withMints extended state) ?_
  intro unchecked
  have blockApart := apart.resolve_left fun already => by simp [already] at unchecked
  exact shadowed_of_mintsApart extended blockApart state

end Verdicts

end RelayState

/-- A node has checked transactions that were rejected or never mined.  Where the block
mints no value that only this made known, recorded with another transaction, it gives the
verdicts it would have given before.  It accepts a block exactly when it would have
accepted it before and no such value is minted; a block that is checked already is not
compared with the recorded mints. -/
theorem blockVerdicts_after_relay
    {validator : Validator} {start node : RelayState} {calls : List TxCall}
    (run : (relaySystem validator).Run start calls node)
    (block : CBlock) (fCheckMerkleRoot fJustCheck fAlreadyChecked : Bool)
    (state : CValidationState) (world : ConnectWorld) :
    (block.MintsApart start.zerocoinDB node.zerocoinDB →
      node.checkBlock validator fCheckMerkleRoot block state =
        start.checkBlock validator fCheckMerkleRoot block state) ∧
      (node.checkBlock validator fCheckMerkleRoot block state = .accept ↔
        start.checkBlock validator fCheckMerkleRoot block state = .accept ∧
          block.MintsApart start.zerocoinDB node.zerocoinDB) ∧
      (fAlreadyChecked = true ∨ block.MintsApart start.zerocoinDB node.zerocoinDB →
        node.connectBlock validator fJustCheck fAlreadyChecked block state world =
          start.connectBlock validator fJustCheck fAlreadyChecked block state world) ∧
      (node.connectBlock validator fJustCheck fAlreadyChecked block state world = .accept ↔
        start.connectBlock validator fJustCheck fAlreadyChecked block state world =
            .accept ∧
          (fAlreadyChecked = true ∨
            block.MintsApart start.zerocoinDB node.zerocoinDB)) := by
  have extended := extends_of_run run
  refine ⟨fun apart => RelayState.checkBlock_eq extended apart fCheckMerkleRoot state, ?_,
    fun apart => RelayState.connectBlock_eq extended apart fJustCheck state world, ?_⟩
  · by_cases apart : block.MintsApart start.zerocoinDB node.zerocoinDB
    · rw [RelayState.checkBlock_eq extended apart]
      exact (and_iff_left apart).symm
    · have refused : node.checkBlock validator fCheckMerkleRoot block state ≠ .accept :=
        RelayState.checkBlock_ne_accept_of_not_mintsApart apart fCheckMerkleRoot state
      exact ⟨fun accepted => absurd accepted refused, fun both => absurd both.2 apart⟩
  · by_cases apart : fAlreadyChecked = true ∨
        block.MintsApart start.zerocoinDB node.zerocoinDB
    · rw [RelayState.connectBlock_eq extended apart]
      exact (and_iff_left apart).symm
    · rw [not_or, Bool.not_eq_true] at apart
      obtain ⟨rfl, together⟩ := apart
      have refused : node.connectBlock validator fJustCheck false block state world ≠
          .accept :=
        RelayState.connectBlock_ne_accept
          (RelayState.checkBlock_ne_accept_of_not_mintsApart together (!fJustCheck) state)
      exact ⟨fun accepted => absurd accepted refused,
        fun both => absurd both.2 (by simp [together])⟩

/-- A transaction with the same mint as the one of the block, which spends an output
twice. -/
def rejectedMintTx : CTransaction :=
  { mintTx with
    hash := 7
    vin := mintTx.vin ++ mintTx.vin }

/-- A node that takes every public coin as valid, and finds no transaction. -/
def mintingValidator : Validator where
  env := { oneCoinEnv with connect := mintingEnv }
  activeHeight_zero := rfl

/-- The node before any transaction. -/
def emptyRelay : RelayState where
  zerocoinDB := bareChecks.zerocoinDB
  mapRejectedBlocks := bareChecks.mapRejectedBlocks
  mempool := .empty false

/-- The node is offered the transaction. -/
def offerRejectedMint : TxCall :=
  .acceptToMemoryPool mintingValidator.env rejectedMintTx 0

theorem blockVerdicts_after_relay_rejectedMint :
    ¬mintingBlock.MintsApart emptyRelay.zerocoinDB
      (offerRejectedMint.apply emptyRelay).2.zerocoinDB := by
  have run : (relaySystem mintingValidator).Run emptyRelay [offerRejectedMint]
      (offerRejectedMint.apply emptyRelay).2 :=
    .snoc .nil ⟨rfl, Or.inl (by decide)⟩
  intro apart
  have same := (blockVerdicts_after_relay run mintingBlock true false false .initial
    (stakeWorld mintingBlock)).1 apart
  exact absurd same (by decide)

/-- The node rejects the transaction, and then a block with the same mint that it would
have accepted. -/
theorem blockVerdict_after_rejectedMint :
    (offerRejectedMint.apply emptyRelay).1 = .reject ∧
      emptyRelay.checkBlock mintingValidator true mintingBlock .initial = .accept ∧
      (offerRejectedMint.apply emptyRelay).2.checkBlock mintingValidator true mintingBlock
        .initial = .reject := by
  decide

end ColossusCoin
