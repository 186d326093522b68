import ColossusCoin.Validation.UndoneSerials
import ColossusCoin.Library.System
import ColossusCoin.Wallet.Zerocoins

/-!
# Recorded serials and the active chain

Connecting and disconnecting blocks, and the zerocoin operations of the wallet, change
the records of spent serials in any order.  The records mirror the active chain as long
as nothing erases a serial that the chain goes on spending.
-/

namespace ColossusCoin

theorem erasesSerials_removeSerials (serials : List CBigNum) (db : CZerocoinDB) :
    ErasesSerials serials db (db.removeSerials serials) := by
  unfold CZerocoinDB.removeSerials
  induction serials generalizing db with
  | nil => exact erasesSerials_nil rfl
  | cons bnSerial rest ih =>
    rw [List.foldl_cons]
    exact (erasesSerials_eraseCoinSpend db bnSerial).trans (ih _)

/-- The lookup finds a transaction in a block of the active chain. -/
def ChainLookup.findsInChain (lookup : ChainLookup) (txHash : Uint256) : Bool :=
  (lookup.getTransaction txHash).any fun found => (lookup.activeHeight found.2).isSome

section FindMints

variable (lookup : ChainLookup) (indexHeight : Uint256 → Option Int)

/-- The search finds the transaction of a mint and its block. -/
def findsMint (db : CZerocoinDB) (mint : CZerocoinMint) : Bool :=
  (db.mints mint.value).any fun txHash =>
    (lookup.getTransaction txHash).any fun found => (indexHeight found.2).isSome

/-- The search finds a mint, but not the transaction that is recorded as its spend. -/
def losesSpend (db : CZerocoinDB) (mint : CZerocoinMint) : Bool :=
  findsMint lookup indexHeight db mint &&
    (db.spends mint.serialNumber).any fun hashTxSpend =>
      hashTxSpend != 0 && !lookup.findsInChain hashTxSpend

theorem zerocoinDB_findMint
    (mint : CZerocoinMint) (found : FoundMints) (db : CZerocoinDB) :
    (findMint lookup indexHeight mint found db).2 =
      if losesSpend lookup indexHeight db mint then db.eraseCoinSpend mint.serialNumber
      else db := by
  unfold findMint losesSpend findsMint
  cases minted : db.mints mint.value with
  | none => rfl
  | some txHash =>
    rcases Option.eq_none_or_eq_some (lookup.getTransaction txHash) with
      missing | ⟨⟨tx, hashBlock⟩, placed⟩
    · simp [missing]
    cases height : indexHeight hashBlock with
    | none => simp [placed, height]
    | some nHeight =>
      have lost : ((db.spends mint.serialNumber).getD 0 != 0 &&
            ((lookup.getTransaction ((db.spends mint.serialNumber).getD 0)).isNone ||
              (lookup.isSerialInBlockchain db mint.serialNumber).isNone)) =
          (db.spends mint.serialNumber).any fun hashTxSpend =>
            hashTxSpend != 0 && !lookup.findsInChain hashTxSpend := by
        unfold ChainLookup.isSerialInBlockchain ChainLookup.findsInChain
        cases recorded : db.spends mint.serialNumber with
        | none => rfl
        | some hashTxSpend =>
          cases spend : lookup.getTransaction hashTxSpend with
          | none => simp [spend]
          | some inBlock => simp [spend]
      simp only [placed, height, lost, Option.any_some, Option.isSome_some, Bool.true_and]
      split_ifs <;> rfl

theorem losesSpend_eq_false_iff (db : CZerocoinDB) (mint : CZerocoinMint) :
    losesSpend lookup indexHeight db mint = false ↔
      (findsMint lookup indexHeight db mint = true →
        ∀ hashTxSpend, db.spends mint.serialNumber = some hashTxSpend →
          hashTxSpend = 0 ∨ lookup.findsInChain hashTxSpend = true) := by
  unfold losesSpend
  cases recorded : db.spends mint.serialNumber with
  | none => simp
  | some hashTxSpend =>
    simp only [Option.any_some, Bool.and_eq_false_imp, bne_iff_ne, Bool.not_eq_false',
      Option.some.injEq, forall_eq']
    exact imp_congr_right fun _ => or_iff_not_imp_left.symm

/-- The serials that the search erases. -/
def lostSerials (db : CZerocoinDB) (vMintsToFind : List CZerocoinMint) : List CBigNum :=
  (vMintsToFind.filter (losesSpend lookup indexHeight db)).map CZerocoinMint.serialNumber

/-- Without a record, there is no spend to lose; the others are as they were. -/
theorem losesSpend_eraseCoinSpend
    (db : CZerocoinDB) (bnSerial : CBigNum) (mint : CZerocoinMint) :
    losesSpend lookup indexHeight (db.eraseCoinSpend bnSerial) mint =
      (mint.serialNumber != bnSerial && losesSpend lookup indexHeight db mint) := by
  unfold losesSpend findsMint CZerocoinDB.eraseCoinSpend
  by_cases same : mint.serialNumber = bnSerial
  · simp [same]
  · simp [same]

theorem erasesSerials_findMints
    (vMintsToFind : List CZerocoinMint) (found : FoundMints) (db : CZerocoinDB) :
    ErasesSerials (lostSerials lookup indexHeight db vMintsToFind) db
      (findMints lookup indexHeight vMintsToFind found db).2 := by
  induction vMintsToFind generalizing found db with
  | nil => exact erasesSerials_nil rfl
  | cons mint rest ih =>
    have one := zerocoinDB_findMint lookup indexHeight mint found db
    rw [findMints]
    generalize findMint lookup indexHeight mint found db = outcome at one ⊢
    obtain ⟨next, changed⟩ := outcome
    have others := ih next changed
    cases loses : losesSpend lookup indexHeight db mint with
    | false =>
      rw [loses, if_neg Bool.false_ne_true] at one
      subst one
      have same : lostSerials lookup indexHeight changed (mint :: rest) =
          lostSerials lookup indexHeight changed rest := by
        simp [lostSerials, loses]
      rw [same]
      exact others
    | true =>
      rw [loses, if_pos rfl] at one
      subst one
      refine ((erasesSerials_eraseCoinSpend db mint.serialNumber).trans others).congr_mem
        fun bnSerial => ?_
      unfold lostSerials
      simp only [losesSpend_eraseCoinSpend, List.filter_cons_of_pos loses,
        List.map_cons, List.mem_append, List.mem_cons, List.not_mem_nil, or_false,
        List.mem_map, List.mem_filter, Bool.and_eq_true, bne_iff_ne]
      by_cases same : bnSerial = mint.serialNumber
      · simp [same]
      · refine or_congr_right (exists_congr fun other => ?_)
        constructor
        · rintro ⟨⟨member, -, lost⟩, rfl⟩
          exact ⟨⟨member, lost⟩, rfl⟩
        · rintro ⟨⟨member, lost⟩, rfl⟩
          exact ⟨⟨member, same, lost⟩, rfl⟩

end FindMints

/-! ## The steps of a node with its wallet -/

/-- A block that is connected at the tip: `ConnectBlock` is called while blocks are not
being verified at start, with the zerocoin library of the node. -/
def ConnectEnv.connecting (env : ConnectEnv)
    (txInToZerocoinSpend : CTxIn → Option CoinSpend) : ConnectEnv :=
  { env with
    context :=
      { env.context with
        lib := { env.context.lib with txInToZerocoinSpend := txInToZerocoinSpend } }
    fVerifyingBlocks := false }

/-- The records that a call is given, with the zerocoin database of the node. -/
def ConnectWorld.withZerocoinDB (world : ConnectWorld) (db : CZerocoinDB) : ConnectWorld :=
  { world with checks := { world.checks with zerocoinDB := db } }

/-- What a node keeps: the blocks of its active chain above the genesis block, the tip
first, the zerocoin database, and the receipts of spends that its wallet has created. -/
structure SerialState where
  chain : List CBlock
  zerocoinDB : CZerocoinDB
  receipts : List (List CBigNum)

/-- What happens at a node.  A lookup is what the node finds when the wallet asks it. -/
inductive SerialAction where
  | connectTip (env : ConnectEnv) (block : CBlock) (fAlreadyChecked : Bool)
      (world : ConnectWorld)
  | disconnectTip (pindex pprev : CBlockIndex) (vtxundo : Option (List CTxUndo))
      (view : CCoinsViewCache)
  | createZerocoinSpend (vSelectedMints : List CZerocoinMint)
  | commitFails (receiptSpends : List CBigNum)
  | resetSpentZerocoin (lookup : ChainLookup) (listMints : List CZerocoinMint)
      (listSpends : List CZerocoinSpend)
  | findMints (lookup : ChainLookup) (indexHeight : Uint256 → Option Int)
      (vMintsToFind : List CZerocoinMint)

section Node

variable (txInToZerocoinSpend : CTxIn → Option CoinSpend)

/-- The serials that the blocks of a chain spend. -/
def chainSerials (chain : List CBlock) : List CBigNum :=
  chain.flatMap fun block => serialsOf (block.spends txInToZerocoinSpend)

namespace SerialState

/-- A node with the genesis block alone. -/
def genesis : SerialState where
  chain := []
  zerocoinDB := .empty
  receipts := []

/-- One step. -/
def apply (state : SerialState) : SerialAction → SerialState
  | .connectTip env block fAlreadyChecked world =>
    if block.hash = env.context.params.hashGenesisBlock then state
    else
      match connectBlock (env.connecting txInToZerocoinSpend) block false fAlreadyChecked
          (world.withZerocoinDB state.zerocoinDB) with
      | (exit, connected) =>
        { state with
          chain := if exit = .accept then block :: state.chain else state.chain
          zerocoinDB := connected.checks.zerocoinDB }
  | .disconnectTip pindex pprev vtxundo view =>
    match state.chain with
    | [] => state
    | tip :: rest =>
      match disconnectBlock txInToZerocoinSpend tip pindex pprev vtxundo false view
          state.zerocoinDB with
      | (done, disconnected) =>
        { state with
          chain := if done then rest else tip :: rest
          zerocoinDB := disconnected.zerocoinDB }
  | .createZerocoinSpend vSelectedMints =>
    match ColossusCoin.createZerocoinSpend state.zerocoinDB vSelectedMints with
    | none => state
    | some receiptSpends =>
      { state with receipts := state.receipts ++ [receiptSpends] }
  | .commitFails receiptSpends =>
    if receiptSpends ∈ state.receipts then
      { state with
        zerocoinDB := spendZerocoinFailed receiptSpends state.zerocoinDB
        receipts := state.receipts.erase receiptSpends }
    else state
  | .resetSpentZerocoin lookup listMints listSpends =>
    { state with
      zerocoinDB :=
        (ColossusCoin.resetSpentZerocoin lookup listMints listSpends
          state.zerocoinDB).2 }
  | .findMints lookup indexHeight vMintsToFind =>
    { state with
      zerocoinDB :=
        (ColossusCoin.findMints lookup indexHeight vMintsToFind
          { vMintsToUpdate := [], vMissingMints := [] } state.zerocoinDB).2 }

/-- Exactly the serials that the active chain spends are recorded. -/
def Mirrors (state : SerialState) : Prop :=
  ∀ bnSerial, state.zerocoinDB.isSerialKnown bnSerial = true ↔
    bnSerial ∈ chainSerials txInToZerocoinSpend state.chain

/-- What a step must meet for the records to stay a mirror of the chain. -/
def Respects (state : SerialState) : SerialAction → Prop
  | .connectTip .. => True
  | .disconnectTip pindex _ vtxundo view =>
    ∀ tip rest, state.chain = tip :: rest →
      if disconnects txInToZerocoinSpend tip pindex.hash view.toView.getBestBlock vtxundo
      then
        ∀ bnSerial ∈ serialsOf (tip.spends txInToZerocoinSpend),
          bnSerial ∉ chainSerials txInToZerocoinSpend rest
      else
        disconnectedSerials txInToZerocoinSpend tip pindex.hash view.toView.getBestBlock
          vtxundo = []
  | .createZerocoinSpend _ => True
  | .commitFails receiptSpends =>
    receiptSpends ∈ state.receipts →
      ∀ bnSerial ∈ receiptSpends, bnSerial ∉ chainSerials txInToZerocoinSpend state.chain
  | .resetSpentZerocoin lookup listMints listSpends =>
    ∀ spend ∈ unconfirmedSpends lookup listSpends,
      (∃ mint ∈ listMints, mint.serialNumber = spend.coinSerial) →
        spend.coinSerial ∉ chainSerials txInToZerocoinSpend state.chain
  | .findMints lookup indexHeight vMintsToFind =>
    ∀ mint ∈ vMintsToFind, findsMint lookup indexHeight state.zerocoinDB mint = true →
      ∀ hashTxSpend, state.zerocoinDB.spends mint.serialNumber = some hashTxSpend →
        hashTxSpend = 0 ∨ lookup.findsInChain hashTxSpend = true

end SerialState

variable {txInToZerocoinSpend}

@[simp] theorem chainSerials_cons (block : CBlock) (chain : List CBlock) :
    chainSerials txInToZerocoinSpend (block :: chain) =
      serialsOf (block.spends txInToZerocoinSpend) ++ chainSerials txInToZerocoinSpend chain :=
  List.flatMap_cons

/-- Recorded serials are known besides those known before. -/
theorem isSome_recordSerials
    (serials : List (CBigNum × Uint256)) (spends : CBigNum → Option Uint256)
    (bnSerial : CBigNum) :
    (recordSerials serials spends bnSerial).isSome = true ↔
      bnSerial ∈ serialsOf serials ∨ (spends bnSerial).isSome = true := by
  unfold recordSerials serialsOf
  induction serials generalizing spends with
  | nil => simp
  | cons spend rest ih =>
    rw [List.foldl_cons, ih, Function.update_apply, List.map_cons, List.mem_cons]
    by_cases same : bnSerial = spend.1
    · simp [same]
    · simp [same]

namespace SerialState

theorem mirrors_genesis : genesis.Mirrors txInToZerocoinSpend := by
  intro bnSerial
  simp [genesis, chainSerials, CZerocoinDB.empty, CZerocoinDB.isSerialKnown]

/-- Erasing serials keeps the mirror, of what remains of the chain, exactly when the
remaining chain spends none of them. -/
theorem mirrors_iff_of_erases
    {state next : SerialState}
    (mirrors : state.Mirrors txInToZerocoinSpend)
    (erases : ErasesSerials serials state.zerocoinDB next.zerocoinDB)
    (covers : ∀ bnSerial, bnSerial ∉ serials →
      (bnSerial ∈ chainSerials txInToZerocoinSpend state.chain ↔
        bnSerial ∈ chainSerials txInToZerocoinSpend next.chain)) :
    next.Mirrors txInToZerocoinSpend ↔
      ∀ bnSerial ∈ serials, bnSerial ∉ chainSerials txInToZerocoinSpend next.chain := by
  unfold Mirrors CZerocoinDB.isSerialKnown
  constructor
  · intro after bnSerial erased spent
    have known := (after bnSerial).mpr spent
    rw [erases bnSerial, if_pos erased] at known
    cases known
  · intro unspent bnSerial
    rw [erases bnSerial]
    by_cases erased : bnSerial ∈ serials
    · rw [if_pos erased]
      exact ⟨fun impossible => (Bool.false_ne_true impossible).elim,
        fun spent => (unspent bnSerial erased spent).elim⟩
    · rw [if_neg erased]
      exact (mirrors bnSerial).trans (covers bnSerial erased)

theorem mirrors_iff_of_wallet
    {state next : SerialState}
    (mirrors : state.Mirrors txInToZerocoinSpend)
    (erases : ErasesSerials serials state.zerocoinDB next.zerocoinDB)
    (chain : next.chain = state.chain) :
    next.Mirrors txInToZerocoinSpend ↔
      ∀ bnSerial ∈ serials, bnSerial ∉ chainSerials txInToZerocoinSpend state.chain := by
  rw [mirrors_iff_of_erases mirrors erases fun bnSerial _ => by rw [chain], chain]

variable {state : SerialState}

section

variable (mirrors : state.Mirrors txInToZerocoinSpend)
include mirrors

theorem mirrors_connectTip
    (env : ConnectEnv) (block : CBlock) (fAlreadyChecked : Bool) (world : ConnectWorld) :
    (state.apply txInToZerocoinSpend
      (.connectTip env block fAlreadyChecked world)).Mirrors txInToZerocoinSpend := by
  unfold apply
  dsimp only
  split_ifs with genesis accepted
  · exact mirrors
  · obtain ⟨recorded, -⟩ := spends_of_accept accepted genesis rfl
    intro bnSerial
    unfold CZerocoinDB.isSerialKnown
    rw [recorded, isSome_recordSerials, chainSerials_cons, List.mem_append]
    exact or_congr_right (mirrors bnSerial)
  · have kept := spends_of_not_accept accepted
    intro bnSerial
    unfold CZerocoinDB.isSerialKnown
    rw [kept]
    exact mirrors bnSerial

theorem mirrors_disconnectTip_iff
    (pindex pprev : CBlockIndex) (vtxundo : Option (List CTxUndo))
    (view : CCoinsViewCache) :
    (state.apply txInToZerocoinSpend
        (.disconnectTip pindex pprev vtxundo view)).Mirrors txInToZerocoinSpend ↔
      state.Respects txInToZerocoinSpend (.disconnectTip pindex pprev vtxundo view) := by
  unfold apply Respects
  obtain ⟨chain, db, receipts⟩ := state
  cases chain with
  | nil =>
    constructor
    · intro _ tip rest impossible
      cases impossible
    · exact fun _ => mirrors
  | cons tip rest =>
    dsimp only
    obtain ⟨done, erases⟩ := @disconnectBlock_serials txInToZerocoinSpend tip pindex pprev
      vtxundo false view db
    generalize disconnectBlock txInToZerocoinSpend tip pindex pprev vtxundo false view
      db = outcome at done erases ⊢
    obtain ⟨exit, disconnected⟩ := outcome
    have forTip : ∀ condition : CBlock → List CBlock → Prop,
        (∀ block others, tip :: rest = block :: others → condition block others) ↔
          condition tip rest := by
      intro condition
      constructor
      · exact fun always => always tip rest rfl
      · rintro holds block others same
        cases same
        exact holds
    rw [forTip]
    subst done
    by_cases goes : disconnects txInToZerocoinSpend tip pindex.hash
        view.toView.getBestBlock vtxundo = true
    · have whole := @disconnectedSerials_of_disconnects txInToZerocoinSpend tip vtxundo _ _
        goes
      rw [if_pos goes, if_pos goes]
      refine mirrors_iff_of_erases mirrors (erases.congr_mem whole) fun bnSerial unspent => ?_
      rw [chainSerials_cons, List.mem_append]
      exact or_iff_right unspent
    · rw [if_neg goes, if_neg goes, List.eq_nil_iff_forall_not_mem]
      refine Iff.trans (mirrors_iff_of_erases mirrors erases fun _ _ => Iff.rfl)
        (forall_congr' fun bnSerial => ?_)
      constructor
      · intro unspent erased
        have spent := disconnectedSerials_subset _ _ erased
        exact unspent erased (List.mem_append_left _ spent)
      · exact fun none erased => (none erased).elim

/-- A search for mints keeps the mirror exactly when it finds the recorded spends. -/
theorem mirrors_findMints_iff
    (lookup : ChainLookup) (indexHeight : Uint256 → Option Int)
    (vMintsToFind : List CZerocoinMint) :
    (state.apply txInToZerocoinSpend
        (.findMints lookup indexHeight vMintsToFind)).Mirrors txInToZerocoinSpend ↔
      state.Respects txInToZerocoinSpend (.findMints lookup indexHeight vMintsToFind) := by
  have recorded : ∀ mint, losesSpend lookup indexHeight state.zerocoinDB mint = true →
      mint.serialNumber ∈ chainSerials txInToZerocoinSpend state.chain := by
    intro mint loses
    rw [← mirrors mint.serialNumber]
    unfold losesSpend at loses
    unfold CZerocoinDB.isSerialKnown
    rw [Bool.and_eq_true, Option.any_eq_true] at loses
    obtain ⟨-, hashTxSpend, known, -⟩ := loses
    rw [known, Option.isSome_some]
  refine Iff.trans (mirrors_iff_of_wallet mirrors
    (erasesSerials_findMints lookup indexHeight vMintsToFind _ _) rfl) ?_
  constructor
  · intro unspent mint member
    rw [← losesSpend_eq_false_iff, Bool.eq_false_iff]
    intro loses
    exact unspent mint.serialNumber
      (List.mem_map_of_mem (List.mem_filter.mpr ⟨member, loses⟩)) (recorded mint loses)
  · intro finds bnSerial erased
    obtain ⟨mint, inLost, -⟩ := List.mem_map.mp erased
    obtain ⟨member, loses⟩ := List.mem_filter.mp inLost
    rw [(losesSpend_eq_false_iff ..).mpr (finds mint member)] at loses
    cases loses

end

theorem mirrors_apply_iff
    (state : SerialState) (action : SerialAction)
    (mirrors : state.Mirrors txInToZerocoinSpend) :
    (state.apply txInToZerocoinSpend action).Mirrors txInToZerocoinSpend ↔
      state.Respects txInToZerocoinSpend action := by
  cases action with
  | connectTip env block fAlreadyChecked world =>
    exact iff_of_true (mirrors_connectTip mirrors env block fAlreadyChecked world) trivial
  | disconnectTip pindex pprev vtxundo view =>
    exact mirrors_disconnectTip_iff mirrors pindex pprev vtxundo view
  | createZerocoinSpend vSelectedMints =>
    refine iff_of_true ?_ trivial
    unfold apply
    dsimp only
    split
    · exact mirrors
    · exact mirrors
  | commitFails receiptSpends =>
    unfold apply Respects
    dsimp only
    split_ifs with outstanding
    · refine Iff.trans (mirrors_iff_of_wallet mirrors
        (erasesSerials_removeSerials receiptSpends _) rfl) ?_
      exact ⟨fun unspent _ => unspent, fun unspent => unspent outstanding⟩
    · exact iff_of_true mirrors fun inReceipts => (outstanding inReceipts).elim
  | resetSpentZerocoin lookup listMints listSpends =>
    refine Iff.trans (mirrors_iff_of_wallet mirrors (erasesSerials_removeSerials _ _) rfl) ?_
    simp only [resetSerials, List.mem_flatMap, List.mem_map, List.mem_filter, beq_iff_eq]
    constructor
    · rintro unspent spend unconfirmed ⟨mint, member, same⟩
      exact unspent spend.coinSerial ⟨spend, unconfirmed, mint, ⟨member, same⟩, rfl⟩
    · rintro unspent bnSerial ⟨spend, unconfirmed, mint, ⟨member, same⟩, rfl⟩
      exact unspent spend unconfirmed ⟨mint, member, same⟩
  | findMints lookup indexHeight vMintsToFind =>
    exact mirrors_findMints_iff mirrors lookup indexHeight vMintsToFind

end SerialState

/-- In every run from the genesis block, the recorded serials mirror the active chain in
every state exactly when every step respects it: no disconnect stops after it erased a
serial or takes back a serial that the rest of the chain spends as well, no receipt whose
commit fails and no unconfirmed wallet spend that is reset names a serial that the chain
spends, and no search for mints misses the recorded spend of a mint. -/
theorem serials_mirrored_iff
    (txInToZerocoinSpend : CTxIn → Option CoinSpend) (trace : List SerialAction) :
    (∀ past, past <+: trace →
        (past.foldl (SerialState.apply txInToZerocoinSpend) .genesis).Mirrors
          txInToZerocoinSpend) ↔
      ∀ past action, past ++ [action] <+: trace →
        (past.foldl (SerialState.apply txInToZerocoinSpend) .genesis).Respects
          txInToZerocoinSpend action :=
  foldl_holds_iff SerialState.mirrors_genesis (fun _ mirrors => mirrors)
    SerialState.mirrors_apply_iff (fun _ _ _ mirrors => mirrors) trace

end Node

/-- Every zerocoin input redeems 50 coins with the serial 1. -/
def oneSerial : CTxIn → Option CoinSpend := fun _ =>
  some { coinSerialNumber := 1, denomination := .zqOne, ptxHash := 0, accChecksum := 0 }

/-- The block with the transaction that the copy of the wallet has sent. -/
def copySpends : CBlock :=
  { bareBlock 5 with
    vtx :=
      [bareCoinBase,
        { hash := 12
          nVersion := 1
          vin := [{ prevout := .null, scriptSig := [Opcode.zerocoinSpend], nSequence := 50 }]
          vout := [{ nValue := 50 * coin, scriptPubKey := [0x51] }]
          nLockTime := 0 }] }

/-- That block is connected, over a parent that counts a mint. -/
def connectCopySpends : SerialAction :=
  .connectTip
    { bareEnv with
      ancestors :=
        [{ CBlockIndex.ofBlock (bareBlock 1) 1 with
            nVersion := 5
            mapZerocoinSupply := fun _ => 1 }] }
    copySpends true (twoOutputsWorld copySpends)

/-- The reset of a wallet that knows the same serial from a transaction of its own, which
is in no block. -/
def resetOriginal : SerialAction :=
  .resetSpentZerocoin
    { getTransaction := fun hash => (copySpends.vtx.find? (·.hash == hash)).map (·, 5)
      activeHeight := fun hash => if hash = 5 then some 2 else none }
    [{ value := 9, serialNumber := 1, txHash := 8, nHeight := 1, isUsed := true }]
    [{ coinSerial := 1, hashTx := 11 }]

/-- The serial that the chain spends in the transaction of the copy is recorded, until the
reset of the original erases it. -/
theorem serials_not_mirrored_copiedWallet :
    let connected := SerialState.genesis.apply oneSerial connectCopySpends
    let reset := connected.apply oneSerial resetOriginal
    connected.zerocoinDB.spends 1 = some 12 ∧
      reset.zerocoinDB.spends 1 = none ∧
      1 ∈ chainSerials oneSerial reset.chain ∧
      ¬ reset.Mirrors oneSerial := by
  intro connected reset
  have recorded : connected.zerocoinDB.spends 1 = some 12 := by decide
  have erased : reset.zerocoinDB.spends 1 = none := by decide
  have spent : 1 ∈ chainSerials oneSerial reset.chain := by decide
  refine ⟨recorded, erased, spent, fun mirrors => ?_⟩
  have known := (mirrors 1).mpr spent
  rw [CZerocoinDB.isSerialKnown, erased] at known
  cases known

end ColossusCoin
