import ColossusCoin.Validation.TransactionLookup

/-!
# Checks of a block against its ancestors

`ContextualCheckBlock`, and what its verdict takes from the memory pool: the scan for
outputs of banned addresses resolves inputs through `GetTransaction`, which asks the
pool first and passes over what it does not find.
-/

namespace ColossusCoin

def lockTimeThreshold : Int := 500000000

def sequenceFinal : Nat := 0xffffffff

/-- What the contextual checks depend on besides the block, its ancestors and the
memory pool. -/
structure ContextualEnv where
  params : CChainParams
  bans : BanList
  addresses : AddressLib
  store : TransactionStore
  /-- `chainActive.Height()`. -/
  chainHeight : Int
  /-- `GetAdjustedTime`. -/
  adjustedTime : Int

def isFinalTx (env : ContextualEnv) (tx : CTransaction) (nBlockHeight nBlockTime : Int) :
    Bool :=
  let height := if nBlockHeight = 0 then env.chainHeight else nBlockHeight
  let time := if nBlockTime = 0 then env.adjustedTime else nBlockTime
  tx.nLockTime == 0 ||
    (tx.nLockTime : Int) < (if (tx.nLockTime : Int) < lockTimeThreshold then height else time) ||
    tx.vin.all fun txin => txin.nSequence == sequenceFinal

/-- The height of the block after its ancestors. -/
def nextHeight (ancestors : List CBlockIndex) : Int :=
  ancestors.head?.elim 0 fun pindexPrev => pindexPrev.nHeight + 1

/-- The inputs that the scan for banned addresses goes through. -/
def CBlock.scannedInputs (block : CBlock) : List CTxIn :=
  (block.vtx.filter fun tx => !tx.isCoinBase).flatMap CTransaction.vin

section

variable (env : ContextualEnv) (ancestors : List CBlockIndex) (block : CBlock)

/-- Some transaction is not final. -/
def containsNonFinal : Bool :=
  block.vtx.any fun tx => !isFinalTx env tx (nextHeight ancestors) block.nTime

/-- Some input spends an output of a banned address, as far as transactions are
found. -/
def spendsBanned (lookup : Uint256 → Option CTransaction) : Bool :=
  env.bans.consensusBanActive &&
    env.addresses.bannedScan lookup (env.bans.consensusBanned (nextHeight ancestors))
      block.scannedInputs

/-- The coinbase starts with the height, where a super majority of the ancestors asks
for it. -/
def checkCoinBaseHeight : Stage CValidationState := fun state =>
  if CBlockHeader.version2 ≤ block.nVersion &&
      isSuperMajority env.params CBlockHeader.version2 ancestors
        env.params.nEnforceBlockUpgradeMajority then
    match block.vtx.head?.bind fun tx => tx.vin.head? with
    | none => (some .abort, state)
    | some txin =>
      let expect := CScript.pushInt64 (nextHeight ancestors)
      if expect.isPrefixOf txin.scriptSig then (none, state)
      else (some .reject, state.dos 100 rejectInvalid "bad-cb-height")
  else (none, state)

/-- `ContextualCheckBlock`, on the transactions that a lookup finds. -/
def contextualCheckBlockWith (lookup : Uint256 → Option CTransaction)
    (state : CValidationState) : Exit × CValidationState :=
  Stage.run
    [ Stage.rejectIf (fun _ => containsNonFinal env ancestors block)
        (CValidationState.dos 10 rejectInvalid "bad-txns-nonfinal" false),
      Stage.rejectIf (fun _ => spendsBanned env ancestors block lookup)
        (CValidationState.dos 100 rejectInvalid "bad-txns-banned" false),
      checkCoinBaseHeight env ancestors block ] state

/-- What `GetTransaction` finds with a memory pool. -/
def lookupWithPool (mempool : CTxMemPool) (hash : Uint256) : Option CTransaction :=
  (getTransaction env.store mempool hash true).map Prod.fst

/-- What `GetTransaction` finds besides the memory pool. -/
def lookupInStore (hash : Uint256) : Option CTransaction :=
  (env.store.findTransaction hash true).map Prod.fst

def contextualCheckBlock (mempool : CTxMemPool) (state : CValidationState) :
    Exit × CValidationState :=
  contextualCheckBlockWith env ancestors block (lookupWithPool env mempool) state

end

/-! ## Where the memory pool decides -/

/-- The pool holds transactions of a family only. -/
def CTxMemPool.DrawnFrom (known : Uint256 → Option CTransaction) (mempool : CTxMemPool) :
    Prop :=
  ∀ hash tx, mempool.lookup hash = some tx → known hash = some tx

/-- The files hold transactions of a family only. -/
def TransactionStore.DrawnFrom (known : Uint256 → Option CTransaction)
    (store : TransactionStore) : Prop :=
  ∀ hash found, store.findTransaction hash true = some found → known hash = some found.1

/-- A family names each transaction by its hash: no two of its transactions have the
same one. -/
def NamesByHash (known : Uint256 → Option CTransaction) : Prop :=
  ∀ hash tx, known hash = some tx → tx.hash = hash

section

variable {hash : Uint256}

theorem lookupWithPool_of_lookup
    (inPool : mempool.lookup hash = some tx) :
    lookupWithPool env mempool hash = some tx := by
  simp [lookupWithPool, getTransaction, inPool]

theorem lookupWithPool_of_absent
    (absent : mempool.lookup hash = none) :
    lookupWithPool env mempool hash = lookupInStore env hash := by
  simp [lookupWithPool, lookupInStore, getTransaction, absent]

/-- A pool adds transactions of the family to what is found without it. -/
theorem lookupInStore_le_lookupWithPool
    (stored : env.store.DrawnFrom known) (pooled : mempool.DrawnFrom known)
    (found : lookupInStore env hash = some tx) :
    lookupWithPool env mempool hash = some tx := by
  cases inPool : mempool.lookup hash with
  | none => rw [lookupWithPool_of_absent inPool, found]
  | some present =>
    obtain ⟨entry, onDisk, rfl⟩ := Option.map_eq_some_iff.mp found
    have same : some present = some entry.1 := by
      rw [← pooled hash present inPool, stored hash entry onDisk]
    rw [lookupWithPool_of_lookup inPool, same]

theorem lookupWithPool_le_known
    (stored : env.store.DrawnFrom known) (pooled : mempool.DrawnFrom known)
    (found : lookupWithPool env mempool hash = some tx) :
    known hash = some tx := by
  cases inPool : mempool.lookup hash with
  | none =>
    rw [lookupWithPool_of_absent inPool] at found
    obtain ⟨entry, onDisk, rfl⟩ := Option.map_eq_some_iff.mp found
    exact stored hash entry onDisk
  | some present =>
    rw [lookupWithPool_of_lookup inPool] at found
    rw [← found]
    exact pooled hash present inPool

end

theorem bannedScan_mono
    {addresses : AddressLib}
    (finds : ∀ hash tx, fewer hash = some tx → more hash = some tx)
    (scanned : addresses.bannedScan fewer banned txins = true) :
    addresses.bannedScan more banned txins = true := by
  rw [AddressLib.bannedScan, List.any_eq_true] at scanned ⊢
  obtain ⟨txin, member, hit⟩ := scanned
  refine ⟨txin, member, ?_⟩
  obtain ⟨txPrev, found, outputBanned⟩ := (Option.any_eq_true _ _).mp hit
  rw [finds _ _ found]
  exact outputBanned

section

theorem spendsBanned_mono
    {fewer more : Uint256 → Option CTransaction}
    (finds : ∀ hash tx, fewer hash = some tx → more hash = some tx)
    (scanned : spendsBanned env ancestors block fewer = true) :
    spendsBanned env ancestors block more = true := by
  rw [spendsBanned, Bool.and_eq_true] at scanned ⊢
  exact ⟨scanned.1, bannedScan_mono finds scanned.2⟩

theorem contextualCheckBlockWith_eq
    (lookup : Uint256 → Option CTransaction) (state : CValidationState) :
    contextualCheckBlockWith env ancestors block lookup state =
      if containsNonFinal env ancestors block then
        (.reject, state.dos 10 rejectInvalid "bad-txns-nonfinal")
      else if spendsBanned env ancestors block lookup then
        (.reject, state.dos 100 rejectInvalid "bad-txns-banned")
      else Stage.finish (checkCoinBaseHeight env ancestors block state) := by
  rw [contextualCheckBlockWith, Stage.run, Stage.sequence_cons_rejectIf,
    Stage.sequence_cons_rejectIf, Stage.sequence_cons]
  split_ifs
  · rfl
  · rfl
  · generalize checkCoinBaseHeight env ancestors block state = outcome
    obtain ⟨exit, next⟩ := outcome
    cases exit <;> rfl

theorem finish_checkCoinBaseHeight_ne_banned (state : CValidationState) :
    Stage.finish (checkCoinBaseHeight env ancestors block state) ≠
      (.reject, state.dos 100 rejectInvalid "bad-txns-banned") := by
  unfold checkCoinBaseHeight
  split_ifs
  · split
    · simp [Stage.finish]
    · dsimp only
      split_ifs
      · simp [Stage.finish]
      · intro same
        have reasons := congrArg (fun outcome => outcome.2.strRejectReason) same
        simp only [Stage.finish, CValidationState.dos] at reasons
        split_ifs at reasons <;> simp at reasons
  · simp [Stage.finish]

/-- With two lookups the outcomes agree exactly when both scans do, unless an earlier
check ends the matter. -/
theorem contextualCheckBlockWith_eq_iff
    (first second : Uint256 → Option CTransaction) (state : CValidationState) :
    contextualCheckBlockWith env ancestors block first state =
        contextualCheckBlockWith env ancestors block second state ↔
      containsNonFinal env ancestors block = true ∨
        spendsBanned env ancestors block first = spendsBanned env ancestors block second := by
  have apart := @finish_checkCoinBaseHeight_ne_banned env ancestors block state
  rw [contextualCheckBlockWith_eq, contextualCheckBlockWith_eq]
  cases containsNonFinal env ancestors block with
  | true => simp
  | false =>
    cases spendsBanned env ancestors block first <;>
      cases spendsBanned env ancestors block second <;>
        simp [apart, apart.symm]

end

/-- A pool with one transaction. -/
def CTxMemPool.single (tx : CTransaction) : CTxMemPool :=
  (CTxMemPool.empty false).addUnchecked tx.hash (.ofTx tx 0 0 0)

theorem CTxMemPool.lookup_single (tx : CTransaction) (hash : Uint256) :
    (CTxMemPool.single tx).lookup hash = if hash = tx.hash then some tx else none := by
  unfold single lookup addUnchecked empty
  rw [SortedMap.get?_insert]
  split_ifs <;> rfl

/-- The verdict and the state it leaves are the same for every memory pool exactly
when a transaction is not final, or when a ban that shows on some transaction already
shows on those that are found without a pool. -/
theorem contextualCheckBlock_ignores_mempool_iff
    (env : ContextualEnv) (ancestors : List CBlockIndex) (block : CBlock)
    (state : CValidationState) (known : Uint256 → Option CTransaction)
    (named : NamesByHash known)
    (stored : env.store.DrawnFrom known) :
    (∀ first second : CTxMemPool, first.DrawnFrom known → second.DrawnFrom known →
        contextualCheckBlock env ancestors block first state =
          contextualCheckBlock env ancestors block second state) ↔
      containsNonFinal env ancestors block = true ∨
        (spendsBanned env ancestors block known = true →
          spendsBanned env ancestors block (lookupInStore env) = true) := by
  unfold contextualCheckBlock
  simp only [contextualCheckBlockWith_eq_iff]
  constructor
  · intro same
    apply or_iff_not_imp_left.mpr
    intro final banned
    -- The pool that holds the previous transaction of a banned input finds it.
    obtain ⟨active, scanned⟩ := Bool.and_eq_true_iff.mp banned
    rw [AddressLib.bannedScan, List.any_eq_true] at scanned
    obtain ⟨txin, member, hit⟩ := scanned
    obtain ⟨txPrev, found, outputBanned⟩ := (Option.any_eq_true _ _).mp hit
    have named := named _ _ found
    have singleDrawn : (CTxMemPool.single txPrev).DrawnFrom known := by
      intro hash tx inPool
      rw [CTxMemPool.lookup_single] at inPool
      split_ifs at inPool with same
      cases inPool
      rw [same, named, found]
    have emptyDrawn : (CTxMemPool.empty false).DrawnFrom known := by
      intro hash tx inPool
      simp [CTxMemPool.lookup, CTxMemPool.empty] at inPool
    have inSingle : lookupWithPool env (.single txPrev) txin.prevout.hash = some txPrev := by
      apply lookupWithPool_of_lookup
      rw [CTxMemPool.lookup_single, if_pos named.symm]
    have withSingle : spendsBanned env ancestors block
        (lookupWithPool env (.single txPrev)) = true := by
      rw [spendsBanned, Bool.and_eq_true, AddressLib.bannedScan, List.any_eq_true]
      refine ⟨active, txin, member, ?_⟩
      rw [inSingle]
      exact outputBanned
    have withEmpty : lookupWithPool env (.empty false) = lookupInStore env := by
      funext hash
      exact lookupWithPool_of_absent rfl
    have agree := (same _ _ singleDrawn emptyDrawn).resolve_left final
    rw [← withEmpty, ← agree, withSingle]
  · rintro (nonFinal | visible) first second firstDrawn secondDrawn
    · exact Or.inl nonFinal
    · right
      have squeezed : ∀ pool : CTxMemPool, pool.DrawnFrom known →
          spendsBanned env ancestors block (lookupWithPool env pool) =
            spendsBanned env ancestors block known := by
        intro pool pooled
        apply Bool.eq_iff_iff.mpr
        constructor
        · apply spendsBanned_mono
          intro hash tx found
          exact lookupWithPool_le_known stored pooled found
        · intro banned
          apply spendsBanned_mono _ (visible banned)
          intro hash tx found
          exact lookupInStore_le_lookupWithPool stored pooled found
      rw [squeezed first firstDrawn, squeezed second secondDrawn]

/-- A script that stands for a payment to a banned address. -/
def payToBanned : CScript := [Opcode.op1]

/-- A transaction that pays a banned address. -/
def payingTx : CTransaction where
  hash := 11
  nVersion := 1
  vin := [⟨⟨10, 0⟩, [], sequenceFinal⟩]
  vout := [⟨coin, payToBanned, -10⟩]
  nLockTime := 0

/-- A transaction that spends what the banned address was paid. -/
def spendingTx : CTransaction where
  hash := 12
  nVersion := 1
  vin := [⟨⟨11, 0⟩, [], sequenceFinal⟩]
  vout := [⟨coin, [], -10⟩]
  nLockTime := 0

/-- A block with both transactions behind a coinbase. -/
def dependentBlock : CBlock where
  hash := 20
  nVersion := CBlockHeader.currentVersion
  hashPrevBlock := 19
  hashMerkleRoot := 0
  nTime := 1600000000
  nBits := 0
  nNonce := 0
  nAccumulatorCheckpoint := 0
  vtx :=
    [ { hash := 10
        nVersion := 1
        vin := [⟨.null, [1, 1], sequenceFinal⟩]
        vout := [⟨0, [], -10⟩]
        nLockTime := 0 },
      payingTx, spendingTx ]
  vchBlockSig := []

/-- A node of the main network that finds none of these transactions on disk. -/
def unindexedEnv : ContextualEnv where
  params := .main
  bans := .initial
  addresses :=
    { extractAddress := fun script =>
        if script = payToBanned then some "DSesymccyAQr6LjGLCHsvHzE41uKMk86XS" else none
      pastEnd := fun _ _ => [] }
  store :=
    { fTxIndex := false
      readTxIndex := fun _ => none
      readTransaction := fun _ => none
      pcoinsTip := ⟨∅, 19, .db ∅ 19⟩
      chainActive := fun _ => none
      readBlockFromDisk := fun _ => none }
  chainHeight := 1300000
  adjustedTime := 1600000000

/-- The parent of the block, at the tip. -/
def dependentParent : CBlockIndex where
  hash := 19
  nHeight := 1300000
  nVersion := CBlockHeader.currentVersion
  nTime := 1599999940
  nBits := 0
  nAccumulatorCheckpoint := 0
  nStatus := ⟨blockValidScripts, true, true, false, false⟩
  nUndoPos := 0
  nMint := 0
  nMoneySupply := 0
  mapZerocoinSupply := fun _ => 0
  vMintDenominationsInBlock := []

/-- The transactions of the block, by their hashes. -/
def dependentKnown (hash : Uint256) : Option CTransaction :=
  dependentBlock.vtx.find? fun tx => tx.hash == hash

theorem contextualCheckBlock_ignores_mempool_iff_dependentBlock :
    NamesByHash dependentKnown ∧ unindexedEnv.store.DrawnFrom dependentKnown ∧
      ¬ ∀ first second : CTxMemPool,
        first.DrawnFrom dependentKnown → second.DrawnFrom dependentKnown →
          contextualCheckBlock unindexedEnv [dependentParent] dependentBlock first .initial =
            contextualCheckBlock unindexedEnv [dependentParent] dependentBlock second
              .initial := by
  have named : NamesByHash dependentKnown := by
    intro hash tx found
    simpa using List.find?_some found
  have stored : unindexedEnv.store.DrawnFrom dependentKnown := by
    intro hash found onDisk
    cases onDisk
  refine ⟨named, stored, ?_⟩
  rw [contextualCheckBlock_ignores_mempool_iff unindexedEnv [dependentParent] dependentBlock
    .initial dependentKnown named stored]
  decide

/-- A block with a transaction that spends an output created earlier in the same block:
a node that has the earlier one in its memory pool rejects the block, a node without it
accepts. -/
theorem contextualCheckBlock_asks_mempool :
    contextualCheckBlock unindexedEnv [dependentParent] dependentBlock
        (.single payingTx) .initial =
        (.reject, CValidationState.initial.dos 100 rejectInvalid "bad-txns-banned") ∧
      contextualCheckBlock unindexedEnv [dependentParent] dependentBlock
        (.empty false) .initial = (.accept, .initial) := by
  decide

end ColossusCoin
