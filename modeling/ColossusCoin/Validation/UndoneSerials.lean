import ColossusCoin.Validation.DisconnectExact
import ColossusCoin.Validation.SpendRecords

/-!
# The serials that a disconnect comes to

`DisconnectBlock` erases serials transaction by transaction and may return an error in
the middle.  Which serials it has erased by then depends on the block and its undo data
alone.
-/

namespace ColossusCoin

variable (txInToZerocoinSpend : CTxIn → Option CoinSpend)

/-- The serials of inputs, up to the first input that does not decode. -/
def leadingSerials : List CTxIn → List CBigNum
  | [] => []
  | txin :: rest =>
    match txInToZerocoinSpend txin with
    | none => []
    | some spend => spend.coinSerialNumber :: leadingSerials rest

/-- The serials that are erased for a transaction. -/
def CTransaction.leadingSerials (tx : CTransaction) : List CBigNum :=
  if tx.isZerocoinSpend then
    ColossusCoin.leadingSerials txInToZerocoinSpend tx.zerocoinSpendInputs
  else []

/-- A transaction can be taken back with its undo record. -/
def undoFits (tx : CTransaction) (txundo : Option CTxUndo) : Bool :=
  zerocoinsDecode txInToZerocoinSpend tx &&
    (tx.spendsNoCoins ||
      txundo.any fun undo => undo.vprevout.length == tx.vin.length)

/-- The serials that the loop erases before it ends or stops. -/
def undoneSerials : List (CTransaction × Option CTxUndo) → List CBigNum
  | [] => []
  | (tx, txundo) :: rest =>
    tx.leadingSerials txInToZerocoinSpend ++
      if undoFits txInToZerocoinSpend tx txundo then undoneSerials rest else []

/-- The transactions of a block with their undo records, in the order in which they are
taken back: there are none, unless the block is the best one of the view and the records
are as many as they should be. -/
def undoRecords (block : CBlock) (hash hashBestBlock : Uint256)
    (vtxundo : Option (List CTxUndo)) : Option (List (CTransaction × Option CTxUndo)) :=
  vtxundo.bind fun vtxundo =>
    if hash = hashBestBlock ∧ vtxundo.length + 1 = block.vtx.length then
      some (block.vtx.zip (none :: vtxundo.map some)).reverse
    else none

variable {txInToZerocoinSpend}

section Inputs

theorem erases_leadingSerials (txins : List CTxIn) (db : CZerocoinDB) :
    ErasesSerials (leadingSerials txInToZerocoinSpend txins) db
      (eraseCoinSpends txInToZerocoinSpend txins db).2 := by
  induction txins generalizing db with
  | nil => exact erasesSerials_nil rfl
  | cons txin rest ih =>
    rw [eraseCoinSpends, leadingSerials]
    cases txInToZerocoinSpend txin with
    | none => exact erasesSerials_nil rfl
    | some spend =>
      have first : ErasesSerials [spend.coinSerialNumber] db
          (db.eraseCoinSpend spend.coinSerialNumber) :=
        erasesSerials_eraseCoinSpend db spend.coinSerialNumber
      exact first.trans (ih _)

theorem leadingSerials_subset (hashTx : Uint256) (txins : List CTxIn) :
    leadingSerials txInToZerocoinSpend txins ⊆
      serialsOf (queuedSpends txInToZerocoinSpend hashTx txins) := by
  induction txins with
  | nil => exact List.Subset.refl _
  | cons txin rest ih =>
    rw [leadingSerials]
    cases decoded : txInToZerocoinSpend txin with
    | none => exact List.nil_subset _
    | some spend =>
      have cons : serialsOf (queuedSpends txInToZerocoinSpend hashTx (txin :: rest)) =
          spend.coinSerialNumber :: serialsOf (queuedSpends txInToZerocoinSpend hashTx rest) := by
        simp [queuedSpends, serialsOf, decoded]
      rw [cons]
      exact List.cons_subset_cons _ ih

theorem leadingSerials_of_decode
    (hashTx : Uint256)
    (decode : (txins.all fun txin => (txInToZerocoinSpend txin).isSome) = true) :
    leadingSerials txInToZerocoinSpend txins =
      serialsOf (queuedSpends txInToZerocoinSpend hashTx txins) := by
  induction txins with
  | nil => rfl
  | cons txin rest ih =>
    rw [List.all_cons, Bool.and_eq_true, Option.isSome_iff_exists] at decode
    obtain ⟨⟨spend, decoded⟩, others⟩ := decode
    rw [leadingSerials, decoded]
    simp [queuedSpends, serialsOf, decoded, ih others]

end Inputs

/-- A transaction erases its leading serials, also when something in it does not
decode. -/
theorem erases_leadingSerials_eraseZerocoins (tx : CTransaction) (db : CZerocoinDB) :
    ErasesSerials (tx.leadingSerials txInToZerocoinSpend) db
      (eraseZerocoins txInToZerocoinSpend tx db).2 := by
  have minted : ∀ erased,
      (if tx.isZerocoinMint then eraseCoinMints tx.zerocoinMintOutputs erased
        else (true, erased)).2.spends = erased.spends := by
    intro erased
    split_ifs
    · exact spends_eraseCoinMints _ erased
    · rfl
  have inputs : ErasesSerials (tx.leadingSerials txInToZerocoinSpend) db
      (if tx.isZerocoinSpend then
          eraseCoinSpends txInToZerocoinSpend tx.zerocoinSpendInputs db
        else (true, db)).2 := by
    unfold CTransaction.leadingSerials
    split_ifs
    · exact erases_leadingSerials tx.zerocoinSpendInputs db
    · exact erasesSerials_nil rfl
  unfold eraseZerocoins
  generalize (if tx.isZerocoinSpend then
      eraseCoinSpends txInToZerocoinSpend tx.zerocoinSpendInputs db
    else (true, db)) = outcome at inputs ⊢
  obtain ⟨decoded, erased⟩ := outcome
  cases decoded with
  | false => exact inputs
  | true =>
    intro bnSerial
    rw [← inputs bnSerial]
    exact congrFun (minted erased) bnSerial

theorem CTransaction.leadingSerials_subset (tx : CTransaction) :
    tx.leadingSerials txInToZerocoinSpend ⊆ serialsOf (tx.spends txInToZerocoinSpend) := by
  unfold CTransaction.leadingSerials CTransaction.spends
  split_ifs
  · exact ColossusCoin.leadingSerials_subset tx.hash tx.zerocoinSpendInputs
  · exact List.nil_subset _

/-- A transaction that can be taken back erases all the serials that it spends. -/
theorem leadingSerials_of_undoFits
    (fits : undoFits txInToZerocoinSpend tx txundo = true) :
    tx.leadingSerials txInToZerocoinSpend = serialsOf (tx.spends txInToZerocoinSpend) := by
  have decodes : zerocoinsDecode txInToZerocoinSpend tx = true := (Bool.and_eq_true_iff.mp fits).1
  unfold zerocoinsDecode at decodes
  unfold CTransaction.leadingSerials CTransaction.spends
  split_ifs with zerocoin
  · simp only [zerocoin, Bool.not_true, Bool.false_or, Bool.and_eq_true] at decodes
    exact leadingSerials_of_decode tx.hash decodes.1
  · rfl

/-- Taking a transaction back succeeds when its undo record fits, and erases its leading
serials in any case. -/
theorem disconnectTx_serials
    (nHeight : Int) (tx : CTransaction) (txundo : Option CTxUndo) (state : DisconnectState) :
    (disconnectTx txInToZerocoinSpend nHeight tx txundo state).1 =
        undoFits txInToZerocoinSpend tx txundo ∧
      ErasesSerials (tx.leadingSerials txInToZerocoinSpend) state.zerocoinDB
        (disconnectTx txInToZerocoinSpend nHeight tx txundo state).2.zerocoinDB := by
  have erases : ErasesSerials (tx.leadingSerials txInToZerocoinSpend) state.zerocoinDB
      (eraseZerocoins txInToZerocoinSpend tx state.zerocoinDB).2 :=
    erases_leadingSerials_eraseZerocoins tx state.zerocoinDB
  have decodes : (eraseZerocoins txInToZerocoinSpend tx state.zerocoinDB).1 =
      zerocoinsDecode txInToZerocoinSpend tx :=
    eraseZerocoins_fst tx state.zerocoinDB
  unfold disconnectTx undoFits
  generalize eraseZerocoins txInToZerocoinSpend tx state.zerocoinDB = outcome at erases decodes ⊢
  obtain ⟨decoded, erased⟩ := outcome
  rw [← decodes]
  cases decoded with
  | false => exact ⟨rfl, erases⟩
  | true =>
    rw [Bool.true_and]
    cases noCoins : tx.spendsNoCoins with
    | true => exact ⟨rfl, erases⟩
    | false =>
      cases txundo with
      | none => exact ⟨rfl, erases⟩
      | some txundo =>
        by_cases fits : txundo.vprevout.length = tx.vin.length
        · simp only [fits, ne_eq, not_true_eq_false, if_false, Bool.false_eq_true,
            zerocoinDB_restoreInputs, Option.any_some, beq_self_eq_true, Bool.or_true,
            true_and]
          exact erases
        · simp only [fits, ne_eq, not_false_eq_true, if_true, if_false,
            Bool.false_eq_true, Option.any_some, beq_eq_false_iff_ne.mpr fits,
            Bool.or_self, true_and]
          exact erases

theorem disconnectTxs_serials
    (nHeight : Int) (records : List (CTransaction × Option CTxUndo))
    (state : DisconnectState) :
    (disconnectTxs txInToZerocoinSpend nHeight records state).1 =
        (records.all fun record => undoFits txInToZerocoinSpend record.1 record.2) ∧
      ErasesSerials (undoneSerials txInToZerocoinSpend records) state.zerocoinDB
        (disconnectTxs txInToZerocoinSpend nHeight records state).2.zerocoinDB := by
  induction records generalizing state with
  | nil => exact ⟨rfl, erasesSerials_nil rfl⟩
  | cons record rest ih =>
    obtain ⟨tx, txundo⟩ := record
    obtain ⟨fits, first⟩ :=
      @disconnectTx_serials txInToZerocoinSpend nHeight tx txundo state
    rw [disconnectTxs, undoneSerials, List.all_cons]
    generalize disconnectTx txInToZerocoinSpend nHeight tx txundo state = outcome at fits first ⊢
    obtain ⟨undone, next⟩ := outcome
    rw [← fits]
    cases undone with
    | false =>
      refine ⟨rfl, ?_⟩
      rw [if_neg Bool.false_ne_true, List.append_nil]
      exact first
    | true =>
      obtain ⟨others, erases⟩ := ih next
      refine ⟨others, ?_⟩
      rw [if_pos rfl]
      exact first.trans erases

theorem undoneSerials_subset (records : List (CTransaction × Option CTxUndo)) :
    undoneSerials txInToZerocoinSpend records ⊆
      serialsOf (records.flatMap fun record => record.1.spends txInToZerocoinSpend) := by
  induction records with
  | nil => exact List.Subset.refl _
  | cons record rest ih =>
    obtain ⟨tx, txundo⟩ := record
    rw [undoneSerials, List.flatMap_cons, serialsOf, List.map_append]
    intro bnSerial member
    rcases List.mem_append.mp member with first | others
    · exact List.mem_append_left _ (tx.leadingSerials_subset first)
    · split_ifs at others
      · exact List.mem_append_right _ (ih others)
      · cases others

theorem undoneSerials_of_undoFits
    (fit : (records.all fun record => undoFits txInToZerocoinSpend record.1 record.2) = true) :
    undoneSerials txInToZerocoinSpend records =
      serialsOf (records.flatMap fun record => record.1.spends txInToZerocoinSpend) := by
  induction records with
  | nil => rfl
  | cons record rest ih =>
    rw [List.all_cons, Bool.and_eq_true] at fit
    rw [undoneSerials, if_pos fit.1, leadingSerials_of_undoFits fit.1,
      ih fit.2, List.flatMap_cons, serialsOf, serialsOf, serialsOf,
      List.map_append]

section Block

variable (txInToZerocoinSpend) in
/-- `DisconnectBlock` goes through. -/
def disconnects (block : CBlock) (hash hashBestBlock : Uint256)
    (vtxundo : Option (List CTxUndo)) : Bool :=
  (undoRecords block hash hashBestBlock vtxundo).any fun records =>
    records.all fun record => undoFits txInToZerocoinSpend record.1 record.2

variable (txInToZerocoinSpend) in
/-- The serials that `DisconnectBlock` erases before it returns. -/
def disconnectedSerials (block : CBlock) (hash hashBestBlock : Uint256)
    (vtxundo : Option (List CTxUndo)) : List CBigNum :=
  (undoRecords block hash hashBestBlock vtxundo).elim []
    (undoneSerials txInToZerocoinSpend)

theorem spends_undoRecords
    {hash hashBestBlock : Uint256}
    (given : undoRecords block hash hashBestBlock vtxundo = some records)
    (bnSerial : CBigNum) :
    bnSerial ∈ serialsOf (records.flatMap fun record =>
        record.1.spends txInToZerocoinSpend) ↔
      bnSerial ∈ serialsOf (block.spends txInToZerocoinSpend) := by
  obtain ⟨undos, rfl, enoughRecords⟩ := Option.bind_eq_some_iff.mp given
  split_ifs at enoughRecords with enough
  cases enoughRecords
  have transactions : (block.vtx.zip (none :: undos.map some)).map Prod.fst = block.vtx := by
    apply List.map_fst_zip
    rw [List.length_cons, List.length_map]
    omega
  unfold CBlock.spends serialsOf
  conv_rhs => rw [← transactions]
  simp [exists_exists_and_eq_and]

theorem disconnectedSerials_subset (hash hashBestBlock : Uint256) :
    disconnectedSerials txInToZerocoinSpend block hash hashBestBlock vtxundo ⊆
      serialsOf (block.spends txInToZerocoinSpend) := by
  unfold disconnectedSerials
  cases given : undoRecords block hash hashBestBlock vtxundo with
  | none => exact List.nil_subset _
  | some records =>
    intro bnSerial member
    exact (spends_undoRecords given bnSerial).mp (undoneSerials_subset records member)

theorem disconnectedSerials_of_disconnects
    {hash hashBestBlock : Uint256}
    (goes : disconnects txInToZerocoinSpend block hash hashBestBlock vtxundo = true)
    (bnSerial : CBigNum) :
    bnSerial ∈ disconnectedSerials txInToZerocoinSpend block hash hashBestBlock vtxundo ↔
      bnSerial ∈ serialsOf (block.spends txInToZerocoinSpend) := by
  unfold disconnectedSerials
  obtain ⟨records, given, fit⟩ := (Option.any_eq_true _ _).mp goes
  rw [← spends_undoRecords given bnSerial, given, Option.elim_some, undoneSerials_of_undoFits fit]

theorem disconnectBlock_serials :
    (disconnectBlock txInToZerocoinSpend block pindex pprev vtxundo fVerifyingBlocks view
        db).1 =
        disconnects txInToZerocoinSpend block pindex.hash view.toView.getBestBlock vtxundo ∧
      ErasesSerials
        (disconnectedSerials txInToZerocoinSpend block pindex.hash view.toView.getBestBlock vtxundo)
        db
        (disconnectBlock txInToZerocoinSpend block pindex pprev vtxundo fVerifyingBlocks
          view db).2.zerocoinDB := by
  unfold disconnectBlock disconnects disconnectedSerials undoRecords
  by_cases wrongBest : pindex.hash ≠ view.toView.getBestBlock
  · rw [if_pos wrongBest]
    cases vtxundo with
    | none => exact ⟨rfl, erasesSerials_nil rfl⟩
    | some undos =>
      rw [Option.bind_some, if_neg fun both => wrongBest both.1]
      exact ⟨rfl, erasesSerials_nil rfl⟩
  rw [if_neg wrongBest]
  cases vtxundo with
  | none => exact ⟨rfl, erasesSerials_nil rfl⟩
  | some undos =>
    dsimp only
    rw [Option.bind_some]
    by_cases differs : undos.length + 1 ≠ block.vtx.length
    · rw [if_pos differs, if_neg fun both => differs both.2]
      exact ⟨rfl, erasesSerials_nil rfl⟩
    rw [if_neg differs, if_pos ⟨not_not.mp wrongBest, not_not.mp differs⟩]
    obtain ⟨fits, erases⟩ := @disconnectTxs_serials txInToZerocoinSpend pindex.nHeight
      (block.vtx.zip (none :: undos.map some)).reverse
      { view := view, zerocoinDB := db, fClean := true }
    rw [Option.any_some, Option.elim_some, ← fits]
    generalize disconnectTxs txInToZerocoinSpend pindex.nHeight
      (block.vtx.zip (none :: undos.map some)).reverse
      { view := view, zerocoinDB := db, fClean := true } = outcome at erases ⊢
    obtain ⟨undone, disconnected⟩ := outcome
    cases undone with
    | false => exact ⟨rfl, erases⟩
    | true =>
      split_ifs
      · refine ⟨rfl, fun bnSerial => ?_⟩
        rw [← erases bnSerial]
        exact congrFun (spends_eraseAccumulatorValues _ _ _) bnSerial
      · exact ⟨rfl, erases⟩

end Block

end ColossusCoin
