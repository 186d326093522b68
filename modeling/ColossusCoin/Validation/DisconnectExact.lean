import ColossusCoin.Validation.DisconnectUndo

/-!
# Disconnecting a block is exact

The edits of `DisconnectBlock` undo those of `UpdateCoins` in reverse order over
the inputs of a transaction and over the transactions of a block.  The disconnect
is clean and restores every coin exactly when no step of the connect lost what
the undo records do not keep.
-/

namespace ColossusCoin

open CCoinsViewCache

/-- The disconnect is clean so far and answers what the view did. -/
structure Restored (before : CCoinsViewCache) (state : DisconnectState) : Prop where
  sound : state.view.toView.Sound
  clean : state.fClean = true
  agrees : ∀ txid,
    (state.view.toView.coinsAt txid).same (before.toView.coinsAt txid) = true

/-- The disconnect is not clean, or some coins did not come back. -/
structure Drifted (before : CCoinsViewCache) (state : DisconnectState) : Prop where
  sound : state.view.toView.Sound
  unlessNoticed : state.fClean = true →
    (∀ txid,
      (state.view.toView.coinsAt txid).same (before.toView.coinsAt txid) = true ∨
        Deviates (before.toView.coinsAt txid) (state.view.toView.coinsAt txid)) ∧
      ∃ txid, Deviates (before.toView.coinsAt txid) (state.view.toView.coinsAt txid)

theorem Restored.not_drifted
    {before : CCoinsViewCache} {state : DisconnectState}
    (restored : Restored before state) :
    ¬Drifted before state := by
  intro drifted
  obtain ⟨_, txid, deviates⟩ := drifted.unlessNoticed restored.clean
  have differs := deviates.not_same
  rw [restored.agrees txid] at differs
  cases differs

theorem undoes_modifyCoins
    (others : ∀ other, other ≠ txid →
      after.toView.coinsAt other = before.toView.coinsAt other)
    (undone : EditUndone (before.toView.coinsAt txid) (after.toView.coinsAt txid) edit
      condition) :
    Undoes Restored Drifted before after (fun state => state.modifyCoins txid edit)
      condition := by
  have spec : ∀ state : DisconnectState, state.view.toView.Sound →
      Modified state.view.toView (state.modifyCoins txid edit).view.toView txid
          (edit (state.view.toView.coinsAt txid)).2 ∧
        (state.modifyCoins txid edit).fClean =
          (state.fClean && (edit (state.view.toView.coinsAt txid)).1) := by
    intro state sound
    obtain ⟨result, modified⟩ := modifyCoins_of_sound sound txid edit
    exact ⟨modified, by rw [← result]; rfl⟩
  -- A drift at the edited coins is carried to the coins that the view answers.
  have carried : ∀ state : DisconnectState, state.view.toView.Sound →
      Deviates (before.toView.coinsAt txid)
        (edit (state.view.toView.coinsAt txid)).2.cleanup →
      Deviates (before.toView.coinsAt txid)
        ((state.modifyCoins txid edit).view.toView.coinsAt txid) :=
    fun state sound deviates => deviates.of_same (spec state sound).1.answer
  refine ⟨?_, ?_, ?_⟩
  · intro state good holds
    obtain ⟨modified, clean⟩ := spec state good.sound
    obtain ⟨expected, back⟩ := undone.restores _ (good.agrees txid) holds
    refine ⟨modified.sound, by rw [clean, good.clean, expected]; rfl, ?_⟩
    intro other
    by_cases same : other = txid
    · subst same
      exact CCoins.same_trans modified.answer back
    · rw [modified.others other same, ← others other same]
      exact good.agrees other
  · intro state good fails
    obtain ⟨modified, clean⟩ := spec state good.sound
    refine ⟨modified.sound, fun stillClean => ?_⟩
    rw [clean, good.clean, Bool.true_and] at stillClean
    rcases undone.spoils _ (good.agrees txid) fails with noticed | deviates
    · rw [noticed] at stillClean
      cases stillClean
    · have deviates := carried state good.sound deviates
      refine ⟨fun other => ?_, txid, deviates⟩
      by_cases same : other = txid
      · subst same
        exact Or.inr deviates
      · rw [modified.others other same, ← others other same]
        exact Or.inl (good.agrees other)
  · intro state bad
    obtain ⟨modified, clean⟩ := spec state bad.sound
    refine ⟨modified.sound, fun stillClean => ?_⟩
    rw [clean, Bool.and_eq_true] at stillClean
    obtain ⟨wasClean, expected⟩ := stillClean
    obtain ⟨related, drifted, deviates⟩ := bad.unlessNoticed wasClean
    have relatedAfter : ∀ other,
        ((state.modifyCoins txid edit).view.toView.coinsAt other).same
            (before.toView.coinsAt other) = true ∨
          Deviates (before.toView.coinsAt other)
            ((state.modifyCoins txid edit).view.toView.coinsAt other) := by
      intro other
      by_cases same : other = txid
      · subst same
        rcases related other with agrees | deviatesHere
        · by_cases holds : condition
          · exact Or.inl (CCoins.same_trans modified.answer
              (undone.restores _ agrees holds).2)
          · rcases undone.spoils _ agrees holds with noticed | spoiled
            · rw [noticed] at expected
              cases expected
            · exact Or.inr (carried state bad.sound spoiled)
        · rcases undone.stays _ deviatesHere with noticed | stays
          · rw [noticed] at expected
            cases expected
          · exact Or.inr (carried state bad.sound stays)
      · rw [modified.others other same, ← others other same]
        exact related other
    refine ⟨relatedAfter, drifted, ?_⟩
    by_cases same : drifted = txid
    · subst same
      rcases undone.stays _ deviates with noticed | stays
      · rw [noticed] at expected
        cases expected
      · exact carried state bad.sound stays
    · rw [modified.others drifted same, ← others drifted same]
      exact deviates

/-- Every spend of a list of inputs can be undone, in the view it meets. -/
def inputsReversible : List CTxIn → CCoinsViewCache → Bool
  | [], _ => true
  | txin :: rest, view =>
    spendReversible txin.prevout.n (view.toView.coinsAt txin.prevout.hash) &&
      inputsReversible rest
        (view.modifyCoins txin.prevout.hash (spendEdit txin.prevout.n)).2

theorem undoes_spendInputs
    (valid : view.Valid)
    (spent : spendInputs txins view = some (undos, final)) :
    Undoes Restored Drifted view final (restoreInputs (txins.zip undos))
      (inputsReversible txins view = true) := by
  induction txins generalizing view undos with
  | nil =>
    simp only [spendInputs, Option.some.injEq, Prod.mk.injEq] at spent
    obtain ⟨rfl, rfl⟩ := spent
    exact (Undoes.refl view).of_iff (by simp [inputsReversible])
  | cons txin rest ih =>
    obtain ⟨undo, next, undosRest, spends, spentRest, rfl⟩ :=
      spendInputs_cons_eq_some spent
    obtain ⟨remaining, spendEq, left, others, nextValid⟩ :=
      modifyCoins_spendEdit valid spends
    have undoesOne := undoes_modifyCoins others
      (editUndone_restoreOutput (valid.wellFormed _) spendEq left)
    have undoesRest := ih nextValid spentRest
    rw [inputsReversible, spends, Bool.and_eq_true]
    refine (undoesOne.comp undoesRest).congr fun state => ?_
    rw [restoreInputs, List.zip_cons_cons, List.reverse_cons, List.foldl_append]
    rfl

/-- A transaction can be taken back: its spends can, and it adds its outputs
where no unspent ones stand. -/
def txReversible (tx : CTransaction) (view : CCoinsViewCache) : Bool :=
  match if tx.spendsNoCoins then some ([], view) else spendInputs tx.vin view with
  | none => false
  | some (_, spent) =>
    (tx.spendsNoCoins || inputsReversible tx.vin view) &&
      (spent.toView.coinsAt tx.hash).isPruned

section Zerocoins

variable {txInToZerocoinSpend : CTxIn → Option CoinSpend}

/-- The zerocoin inputs and outputs of a transaction decode. -/
def zerocoinsDecode (txInToZerocoinSpend : CTxIn → Option CoinSpend)
    (tx : CTransaction) : Bool :=
  (!tx.isZerocoinSpend ||
      tx.zerocoinSpendInputs.all fun txin => (txInToZerocoinSpend txin).isSome) &&
    tx.zerocoinMintOutputs.all fun txout => (txOutToPublicCoin txout).isSome

private theorem eraseCoinSpends_fst
    (txins : List CTxIn) (db : CZerocoinDB) :
    (eraseCoinSpends txInToZerocoinSpend txins db).1 =
      txins.all fun txin => (txInToZerocoinSpend txin).isSome := by
  induction txins generalizing db with
  | nil => rfl
  | cons txin rest ih =>
    rw [eraseCoinSpends, List.all_cons]
    cases txInToZerocoinSpend txin with
    | none => rfl
    | some spend => exact ih _

private theorem eraseCoinMints_fst
    (outs : List CTxOut) (db : CZerocoinDB) :
    (eraseCoinMints outs db).1 = outs.all fun txout => (txOutToPublicCoin txout).isSome := by
  induction outs generalizing db with
  | nil => rfl
  | cons txout rest ih =>
    rw [eraseCoinMints, List.all_cons]
    cases txOutToPublicCoin txout with
    | none => rfl
    | some pubCoin => exact ih _

theorem eraseZerocoins_fst (tx : CTransaction) (db : CZerocoinDB) :
    (eraseZerocoins txInToZerocoinSpend tx db).1 = zerocoinsDecode txInToZerocoinSpend tx := by
  have mints : tx.isZerocoinMint = false → tx.zerocoinMintOutputs = [] := by
    intro noMint
    rw [CTransaction.isZerocoinMint, List.any_eq_false] at noMint
    rw [CTransaction.zerocoinMintOutputs, List.filter_eq_nil_iff]
    intro txout present
    rw [CTxOut.isZerocoinMint_eq]
    exact noMint txout present
  have spends : ∀ outcome : Bool × CZerocoinDB,
      (if tx.isZerocoinSpend then
          eraseCoinSpends txInToZerocoinSpend tx.zerocoinSpendInputs db
        else (true, db)) = outcome →
      outcome.1 = (!tx.isZerocoinSpend ||
        tx.zerocoinSpendInputs.all fun txin => (txInToZerocoinSpend txin).isSome) := by
    rintro outcome rfl
    cases tx.isZerocoinSpend with
    | false => rfl
    | true => exact eraseCoinSpends_fst _ _
  unfold eraseZerocoins zerocoinsDecode
  split
  · rename_i erased outcome
    rw [← spends _ outcome]
    rfl
  · rename_i erased outcome
    rw [← spends _ outcome, Bool.true_and]
    cases mint : tx.isZerocoinMint with
    | false =>
      rw [mints mint]
      rfl
    | true => exact eraseCoinMints_fst _ _

private theorem undoes_erase
    (view : CCoinsViewCache) (erase : CZerocoinDB → CZerocoinDB) :
    Undoes Restored Drifted view view
      (fun state => { state with zerocoinDB := erase state.zerocoinDB }) True where
  restores := fun _ good _ => ⟨good.sound, good.clean, good.agrees⟩
  spoils := fun _ _ impossible => absurd trivial impossible
  stays := fun _ bad => ⟨bad.sound, bad.unlessNoticed⟩

variable {nHeight : Int} {txs : List CTransaction}

/-- A transaction that does not decode stops the disconnect. -/
theorem decode_of_disconnectTx
    (succeeds : (disconnectTx txInToZerocoinSpend nHeight tx txundo state).1 = true) :
    zerocoinsDecode txInToZerocoinSpend tx = true := by
  rw [← eraseZerocoins_fst tx state.zerocoinDB]
  unfold disconnectTx at succeeds
  split at succeeds
  · cases succeeds
  · rename_i erased outcome
    rw [outcome]

/-- The step of the loop over transactions: with the undo record that
`UpdateCoins` filled, or none where no input is spent from the view. -/
theorem undoes_updateCoins
    (valid : view.Valid)
    (nonneg : ∀ txout ∈ tx.vout, 0 ≤ txout.nValue)
    (decodes : zerocoinsDecode txInToZerocoinSpend tx = true)
    (record : tx.spendsNoCoins = true ∨ given = some txundo)
    (updated : updateCoins tx view nHeight = some (txundo, final)) :
    (∀ state, (disconnectTx txInToZerocoinSpend nHeight tx given state).1 = true) ∧
      Undoes Restored Drifted view final
        (fun state => (disconnectTx txInToZerocoinSpend nHeight tx given state).2)
        (txReversible tx view = true) := by
  obtain ⟨spent, spends, rfl⟩ := updateCoins_eq_some updated
  have erased : ∀ state : DisconnectState,
      eraseZerocoins txInToZerocoinSpend tx state.zerocoinDB =
        (true, (eraseZerocoins txInToZerocoinSpend tx state.zerocoinDB).2) :=
    fun state => Prod.ext ((eraseZerocoins_fst tx state.zerocoinDB).trans decodes) rfl
  have undoesErase := undoes_erase
    (spent.modifyCoins tx.hash fun _ => ((), CCoins.fromTx tx nHeight)).2
    (fun db => (eraseZerocoins txInToZerocoinSpend tx db).2)
  by_cases exempt : tx.spendsNoCoins = true
  · rw [if_pos exempt, Option.some.injEq, Prod.mk.injEq] at spends
    obtain ⟨_, rfl⟩ := spends
    obtain ⟨made, others, _⟩ := modified_fromTx nHeight valid nonneg
    have undoesMake := undoes_modifyCoins others (editUndone_removeOutputs made)
    have unfolded : ∀ state,
        disconnectTx txInToZerocoinSpend nHeight tx given state =
          (true, ({ state with
            zerocoinDB :=
              (eraseZerocoins txInToZerocoinSpend tx state.zerocoinDB).2 } :
              DisconnectState).modifyCoins tx.hash (removeOutputs tx nHeight)) := by
      intro state
      rw [disconnectTx, erased]
      simp [exempt]
    refine ⟨fun state => by rw [unfolded], ?_⟩
    have undoes := (undoesMake.comp undoesErase).congr fun state =>
      congrArg Prod.snd (unfolded state)
    refine undoes.of_iff ?_
    simp [txReversible, exempt]
  · rw [if_neg exempt] at spends
    obtain ⟨spentValid, lengths⟩ := spendInputs_of_valid valid spends
    obtain ⟨made, others, _⟩ := modified_fromTx nHeight spentValid nonneg
    have undoesMake := undoes_modifyCoins others (editUndone_removeOutputs made)
    have undoesSpend := undoes_spendInputs valid spends
    have recorded : given = some txundo := record.resolve_left exempt
    have unfolded : ∀ state,
        disconnectTx txInToZerocoinSpend nHeight tx given state =
          (true, restoreInputs (tx.vin.zip txundo.vprevout) (({ state with
            zerocoinDB :=
              (eraseZerocoins txInToZerocoinSpend tx state.zerocoinDB).2 } :
              DisconnectState).modifyCoins tx.hash (removeOutputs tx nHeight))) := by
      intro state
      rw [disconnectTx, erased, recorded]
      simp [exempt, lengths]
    refine ⟨fun state => by rw [unfolded], ?_⟩
    have undoes := (undoesSpend.comp (undoesMake.comp undoesErase)).congr fun state =>
      congrArg Prod.snd (unfolded state)
    refine undoes.of_iff ?_
    simp [txReversible, exempt, spends]

/-- Every transaction of a list can be taken back, in the view it meets. -/
def txsReversible : List CTransaction → CCoinsViewCache → Int → Bool
  | [], _, _ => true
  | tx :: rest, view, nHeight =>
    txReversible tx view &&
      match updateCoins tx view nHeight with
      | none => false
      | some (_, updated) => txsReversible rest updated nHeight

theorem disconnectTxs_append
    (nHeight : Int) (first second : List (CTransaction × Option CTxUndo))
    (state : DisconnectState) :
    disconnectTxs txInToZerocoinSpend nHeight (first ++ second) state =
      match disconnectTxs txInToZerocoinSpend nHeight first state with
      | (false, stopped) => (false, stopped)
      | (true, disconnected) =>
        disconnectTxs txInToZerocoinSpend nHeight second disconnected := by
  induction first generalizing state with
  | nil => rfl
  | cons record rest ih =>
    rw [List.cons_append, disconnectTxs, disconnectTxs]
    split
    · rfl
    · exact ih _

theorem decode_of_disconnectTxs
    {records : List (CTransaction × Option CTxUndo)}
    {state : DisconnectState}
    (succeeds : (disconnectTxs txInToZerocoinSpend nHeight records state).1 = true) :
    ∀ record ∈ records, zerocoinsDecode txInToZerocoinSpend record.1 = true := by
  induction records generalizing state with
  | nil => simp
  | cons record rest ih =>
    rw [disconnectTxs] at succeeds
    split at succeeds
    · cases succeeds
    · rename_i disconnected outcome
      have decodes := decode_of_disconnectTx (congrArg Prod.fst outcome)
      intro other present
      rcases List.mem_cons.mp present with rfl | inRest
      · exact decodes
      · exact ih succeeds other inRest

/-- Which undo records the loop is given: those that `UpdateCoins` filled, and
possibly none where no input is spent from the view. -/
def Recorded : List CTransaction → List CTxUndo → List (Option CTxUndo) → Prop
  | [], [], [] => True
  | tx :: txs, txundo :: txundos, given :: rest =>
    (tx.spendsNoCoins = true ∨ given = some txundo) ∧ Recorded txs txundos rest
  | _, _, _ => False

/-- Taking transactions back in reverse order undoes applying them in order. -/
theorem undoes_updateCoinsAll
    {txundos : List CTxUndo}
    {given : List (Option CTxUndo)} {view final : CCoinsViewCache}
    (valid : view.Valid)
    (nonneg : ∀ tx ∈ txs, ∀ txout ∈ tx.vout, 0 ≤ txout.nValue)
    (decode : ∀ tx ∈ txs, zerocoinsDecode txInToZerocoinSpend tx = true)
    (recorded : Recorded txs txundos given)
    (updated : updateCoinsAll txs view nHeight = some (txundos, final)) :
    (∀ state, (disconnectTxs txInToZerocoinSpend nHeight (txs.zip given).reverse state).1 = true) ∧
      Undoes Restored Drifted view final
        (fun state => (disconnectTxs txInToZerocoinSpend nHeight (txs.zip given).reverse state).2)
        (txsReversible txs view nHeight = true) := by
  induction txs generalizing view txundos given with
  | nil =>
    simp only [updateCoinsAll, Option.some.injEq, Prod.mk.injEq] at updated
    obtain ⟨rfl, rfl⟩ := updated
    have undoes := (Undoes.refl view : Undoes Restored Drifted view view id True)
    exact ⟨fun _ => rfl, (undoes.congr fun _ => rfl).of_iff (by simp [txsReversible])⟩
  | cons tx rest ih =>
    obtain ⟨txundo, next, txundosRest, updatesOne, updatedRest, rfl⟩ :=
      updateCoinsAll_cons_eq_some updated
    cases given with
    | nil => exact recorded.elim
    | cons record givenRest =>
      have txNonneg := nonneg tx List.mem_cons_self
      obtain ⟨runsOne, undoesOne⟩ := undoes_updateCoins valid txNonneg
        (decode tx List.mem_cons_self) recorded.1 updatesOne
      obtain ⟨runsRest, undoesRest⟩ := ih
        (updateCoins_of_valid valid txNonneg updatesOne)
        (fun other present => nonneg other (List.mem_cons_of_mem _ present))
        (fun other present => decode other (List.mem_cons_of_mem _ present))
        recorded.2 updatedRest
      have unfolded : ∀ state,
          disconnectTxs txInToZerocoinSpend nHeight
              ((tx :: rest).zip (record :: givenRest)).reverse state =
            (true, (disconnectTx txInToZerocoinSpend nHeight tx record
              (disconnectTxs txInToZerocoinSpend nHeight
                (rest.zip givenRest).reverse state).2).2) := by
        intro state
        rw [List.zip_cons_cons, List.reverse_cons, disconnectTxs_append]
        have ran := runsRest state
        split
        · rename_i stopped outcome
          rw [outcome] at ran
          cases ran
        · rename_i disconnected outcome
          rw [outcome, disconnectTxs]
          have ranOne := runsOne disconnected
          split
          · rename_i stopped outcomeOne
            rw [outcomeOne] at ranOne
            cases ranOne
          · rename_i back outcomeOne
            rw [outcomeOne]
            rfl
      refine ⟨fun state => by rw [unfolded], ?_⟩
      have undoes := (undoesOne.comp undoesRest).congr fun state =>
        (congrArg Prod.snd (unfolded state)).trans rfl
      refine undoes.of_iff ?_
      rw [txsReversible, updatesOne, Bool.and_eq_true]

/-- What `CheckBlock` made sure of before a block is connected. -/
structure CheckedOutputs (block : CBlock) : Prop where
  coinBase : ∃ first rest, block.vtx = first :: rest ∧ first.isCoinBase = true
  nonneg : ∀ tx ∈ block.vtx, ∀ txout ∈ tx.vout, 0 ≤ txout.nValue

/-- Disconnecting the block from the view that applying it left, with the undo
records of all transactions but the first, returns true, is clean, and restores
the coins of every transaction id. -/
def DisconnectExact (txInToZerocoinSpend : CTxIn → Option CoinSpend)
    (block : CBlock) (pindex pprev : CBlockIndex) (fVerifyingBlocks : Bool)
    (zerocoinDB : CZerocoinDB) (view applied : CCoinsViewCache)
    (txundos : List CTxUndo) : Prop :=
  let result := disconnectBlock txInToZerocoinSpend block pindex pprev
    (some txundos.tail) fVerifyingBlocks (applied.setBestBlock pindex.hash) zerocoinDB
  result.1 = true ∧ result.2.fClean = true ∧
    ∀ txid, (result.2.view.toView.coinsAt txid).same (view.toView.coinsAt txid) = true

private theorem recorded_some
    (updated : updateCoinsAll txs view nHeight = some (txundos, final)) :
    Recorded txs txundos (txundos.map some) := by
  induction txs generalizing view txundos with
  | nil =>
    simp only [updateCoinsAll, Option.some.injEq, Prod.mk.injEq] at updated
    rw [← updated.1]
    trivial
  | cons tx rest ih =>
    obtain ⟨txundo, next, txundosRest, _, updatedRest, rfl⟩ :=
      updateCoinsAll_cons_eq_some updated
    exact ⟨Or.inr rfl, ih updatedRest⟩

private theorem Recorded.length_eq
    {txundos : List CTxUndo} {given : List (Option CTxUndo)}
    (recorded : Recorded txs txundos given) :
    given.length = txs.length := by
  induction txs generalizing txundos given with
  | nil =>
    cases txundos with
    | nil =>
      cases given with
      | nil => rfl
      | cons _ _ => exact recorded.elim
    | cons _ _ => exact recorded.elim
  | cons tx rest ih =>
    cases txundos with
    | nil => exact recorded.elim
    | cons txundo txundosRest =>
      cases given with
      | nil => exact recorded.elim
      | cons record givenRest =>
        rw [List.length_cons, List.length_cons, ih recorded.2]

private theorem recorded_tail
    {first : CTransaction} {rest : List CTransaction} {view final : CCoinsViewCache}
    {nHeight : Int} {txundos : List CTxUndo}
    (coinBase : first.isCoinBase = true)
    (updated : updateCoinsAll (first :: rest) view nHeight = some (txundos, final)) :
    Recorded (first :: rest) txundos (none :: txundos.tail.map some) := by
  have recorded := recorded_some updated
  cases txundos with
  | nil => exact recorded.elim
  | cons txundo txundosRest =>
    refine ⟨Or.inl ?_, recorded.2⟩
    rw [CTransaction.spendsNoCoins, coinBase, Bool.true_or]

/-- The loop over the transactions that `DisconnectBlock` runs. -/
private def disconnectLoop (txInToZerocoinSpend : CTxIn → Option CoinSpend)
    (block : CBlock) (nHeight : Int) (vtxundo : List CTxUndo)
    (view : CCoinsViewCache) (zerocoinDB : CZerocoinDB) : Bool × DisconnectState :=
  disconnectTxs txInToZerocoinSpend nHeight
    (block.vtx.zip (none :: vtxundo.map some)).reverse ⟨view, zerocoinDB, true⟩

/-- Past its first tests `DisconnectBlock` returns what its loop does, and adds no
change of coins. -/
private theorem disconnectBlock_eq
    {block : CBlock} {pindex : CBlockIndex} {view : CCoinsViewCache}
    {vtxundo : List CTxUndo}
    (pprev : CBlockIndex) (fVerifyingBlocks : Bool) (zerocoinDB : CZerocoinDB)
    (best : pindex.hash = view.toView.getBestBlock)
    (lengths : vtxundo.length + 1 = block.vtx.length) :
    let loop := disconnectLoop txInToZerocoinSpend block pindex.nHeight vtxundo view zerocoinDB
    let result := disconnectBlock txInToZerocoinSpend block pindex pprev
      (some vtxundo) fVerifyingBlocks view zerocoinDB
    result.1 = loop.1 ∧
      (loop.1 = true → result.2.fClean = loop.2.fClean ∧
        ∀ txid, result.2.view.toView.coinsAt txid = loop.2.view.toView.coinsAt txid) := by
  intro loop result
  have unfolded : result = disconnectBlock txInToZerocoinSpend block pindex pprev
      (some vtxundo) fVerifyingBlocks view zerocoinDB := rfl
  unfold disconnectBlock at unfolded
  simp only [best, lengths, ne_eq, not_true_eq_false, if_false] at unfolded
  cases outcome : loop with
  | mk succeeded final =>
    change disconnectTxs _ _ _ _ = _ at outcome
    rw [outcome] at unfolded
    cases succeeded with
    | false => exact ⟨by rw [unfolded], nofun⟩
    | true =>
      simp only at unfolded
      split at unfolded
      · exact ⟨by rw [unfolded], fun _ => ⟨by rw [unfolded], fun _ => by
          rw [unfolded]; rfl⟩⟩
      · exact ⟨by rw [unfolded], fun _ => ⟨by rw [unfolded], fun _ => by
          rw [unfolded]; rfl⟩⟩

end Zerocoins

/-- A view whose only coins have one unspent output, of a coinstake or not. -/
def lastOutputView (fCoinStake : Bool) : CCoinsViewCache :=
  .overSingle 1
    { fCoinBase := false
      fCoinStake := fCoinStake
      vout := [{ nValue := 5, scriptPubKey := [] }]
      nHeight := 7
      nVersion := 1 } 7

/-- A block that spends that output. -/
def lastOutputBlock : CBlock where
  hash := 8
  nVersion := 4
  hashPrevBlock := 7
  hashMerkleRoot := 0
  nTime := 0
  nBits := 0
  nNonce := 0
  nAccumulatorCheckpoint := 0
  vtx :=
    [{ hash := 10
       nVersion := 1
       vin := [{ prevout := COutPoint.null, scriptSig := [1, 8], nSequence := 0 }]
       vout := [{ nValue := 0, scriptPubKey := [] }]
       nLockTime := 0 },
     { hash := 11
       nVersion := 1
       vin := [{ prevout := ⟨1, 0⟩, scriptSig := [], nSequence := 0 }]
       vout := [{ nValue := 5, scriptPubKey := [] }]
       nLockTime := 0 }]
  vchBlockSig := []

/-- An index entry that only carries a hash and a height. -/
def bareIndex (hash : Uint256) (nHeight : Int) : CBlockIndex where
  hash := hash
  nHeight := nHeight
  nVersion := 4
  nTime := 0
  nBits := 0
  nAccumulatorCheckpoint := 0
  nStatus := ⟨blockValidScripts, true, true, false, false⟩
  nUndoPos := 0
  nMint := 0
  nMoneySupply := 0
  mapZerocoinSupply := fun _ => 0
  vMintDenominationsInBlock := []

theorem valid_lastOutputView (fCoinStake : Bool) :
    (lastOutputView fCoinStake).Valid := by
  apply valid_overSingle
  cases fCoinStake with
  | false => exact ⟨by decide, by decide⟩
  | true => exact ⟨by decide, by decide⟩

theorem checkedOutputs_lastOutputBlock : CheckedOutputs lastOutputBlock where
  coinBase := ⟨_, _, rfl, rfl⟩
  nonneg := by decide

end ColossusCoin
