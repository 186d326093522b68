import ColossusCoin.Validation.CheckBlock

/-!
# Mints that a check records

`CheckTransaction` records the mints among the outputs that it comes to, before it
knows whether the transaction and its block are valid.  Whether it comes to a mint
that is not recorded yet is read off the block and the database, and decides whether
a call of `CheckBlock` changes the database.
-/

namespace ColossusCoin

/-- Each recorded mint stays recorded with its transaction, and nothing but mints is
recorded. -/
structure CZerocoinDB.KeepsMints (before after : CZerocoinDB) : Prop where
  mints : ∀ value hashTx, before.mints value = some hashTx →
    after.mints value = some hashTx
  spends : after.spends = before.spends
  accumulators : after.accumulators = before.accumulators

/-- The database of the checks keeps its mints. -/
def CheckState.KeepsMints (before after : CheckState) : Prop :=
  before.zerocoinDB.KeepsMints after.zerocoinDB

instance : IsPreorder CheckState CheckState.KeepsMints where
  refl _ := ⟨fun _ _ recorded => recorded, rfl, rfl⟩
  trans _ _ _ first second :=
    ⟨fun value hashTx recorded =>
        second.mints value hashTx (first.mints value hashTx recorded),
      second.spends.trans first.spends, second.accumulators.trans first.accumulators⟩

theorem keepsMints_of_eq
    {before after : CheckState}
    (same : after.zerocoinDB = before.zerocoinDB) :
    before.KeepsMints after := by
  unfold CheckState.KeepsMints
  rw [same]
  exact ⟨fun _ _ recorded => recorded, rfl, rfl⟩

theorem keepsMints_recordMintToDB
    (db : CZerocoinDB) (pubCoin : PublicCoin) (txHash : Uint256) :
    db.KeepsMints (db.recordMintToDB pubCoin txHash).2 := by
  unfold CZerocoinDB.recordMintToDB
  cases held : db.mints pubCoin.value with
  | some hashFromDB => exact ⟨fun _ _ recorded => recorded, rfl, rfl⟩
  | none =>
    refine ⟨?_, rfl, rfl⟩
    intro value hashTx recorded
    have other : value ≠ pubCoin.value := by
      rintro rfl
      rw [held] at recorded
      cases recorded
    dsimp only [CZerocoinDB.writeCoinMint]
    rw [Function.update_of_ne other]
    exact recorded

theorem keepsMints_checkZerocoinMint
    (lib : ZerocoinLib) (txHash : Uint256) (txout : CTxOut) (checks : CheckState) :
    checks.KeepsMints (checkZerocoinMint lib txHash txout checks).2 := by
  unfold checkZerocoinMint
  cases txOutToPublicCoin txout with
  | none => exact keepsMints_of_eq rfl
  | some pubCoin =>
    dsimp only
    split_ifs
    · exact keepsMints_of_eq rfl
    · have kept := keepsMints_recordMintToDB checks.zerocoinDB pubCoin txHash
      generalize checks.zerocoinDB.recordMintToDB pubCoin txHash = outcome at kept ⊢
      obtain ⟨recorded, db⟩ := outcome
      cases recorded <;> exact kept

/-- The stage of `CheckTransaction` that checks and records one mint. -/
def mintStage (lib : ZerocoinLib) (fZerocoinActive : Bool) (tx : CTransaction)
    (txout : CTxOut) : Stage CheckState :=
  Stage.when (fZerocoinActive && txout.isZerocoinMint)
    (Stage.require (checkZerocoinMint lib tx.hash txout) (CheckState.dos 100 0 ""))

theorem keepsMints_mintStage
    (lib : ZerocoinLib) (fZerocoinActive : Bool) (tx : CTransaction) (txout : CTxOut) :
    Stage.Relates CheckState.KeepsMints (mintStage lib fZerocoinActive tx txout) := by
  apply Stage.relates_when
  apply Stage.relates_require
  · exact keepsMints_checkZerocoinMint lib tx.hash txout
  · intro checks
    exact keepsMints_of_eq rfl

/-- The output breaks none of the rules on values, after outputs of a total. -/
def outputPasses (params : CChainParams) (tx : CTransaction) (txout : CTxOut)
    (nValueOut : Int) : Bool :=
  !(txout.isEmpty && !tx.isCoinBase && !tx.isCoinStake) && !(txout.nValue < 0) &&
    !(params.nMaxMoneyOut < txout.nValue) &&
    params.moneyRange (nValueOut + txout.nValue)

theorem checkOutputs_cons
    (params : CChainParams) (lib : ZerocoinLib) (fZerocoinActive : Bool)
    (tx : CTransaction) (txout : CTxOut) (rest : List CTxOut) (nValueOut : Int)
    (checks : CheckState) :
    (outputPasses params tx txout nValueOut = false ∧
      (checkOutputs params lib fZerocoinActive tx (txout :: rest) nValueOut checks).1 =
        some .reject ∧
      (checkOutputs params lib fZerocoinActive tx (txout :: rest) nValueOut
        checks).2.zerocoinDB = checks.zerocoinDB) ∨
    (outputPasses params tx txout nValueOut = true ∧
      checkOutputs params lib fZerocoinActive tx (txout :: rest) nValueOut checks =
        match mintStage lib fZerocoinActive tx txout checks with
        | (some exit, failed) => (some exit, failed)
        | (none, passed) =>
          checkOutputs params lib fZerocoinActive tx rest (nValueOut + txout.nValue) passed) := by
  rw [checkOutputs]
  split_ifs with empty negative tooLarge totalTooLarge
  · exact Or.inl ⟨by simp [outputPasses, empty], rfl, rfl⟩
  · exact Or.inl ⟨by simp [outputPasses, negative], rfl, rfl⟩
  · exact Or.inl ⟨by simp [outputPasses, tooLarge], rfl, rfl⟩
  · exact Or.inl ⟨by simp [outputPasses, totalTooLarge], rfl, rfl⟩
  · refine Or.inr ⟨?_, rfl⟩
    rw [Bool.not_eq_true] at empty
    rw [Bool.not_eq_false] at totalTooLarge
    simp [outputPasses, empty, negative, tooLarge, totalTooLarge]

theorem keepsMints_checkOutputs
    (params : CChainParams) (lib : ZerocoinLib) (fZerocoinActive : Bool)
    (tx : CTransaction) (outs : List CTxOut) (nValueOut : Int) :
    Stage.Relates CheckState.KeepsMints
      (checkOutputs params lib fZerocoinActive tx outs nValueOut) := by
  induction outs generalizing nValueOut with
  | nil =>
    intro checks
    exact refl checks
  | cons txout rest ih =>
    intro checks
    rcases checkOutputs_cons params lib fZerocoinActive tx txout rest nValueOut checks with
      ⟨_, _, same⟩ | ⟨_, step⟩
    · exact keepsMints_of_eq same
    · have minted := keepsMints_mintStage lib fZerocoinActive tx txout checks
      rw [step]
      generalize mintStage lib fZerocoinActive tx txout checks = outcome at minted ⊢
      obtain ⟨exit, next⟩ := outcome
      cases exit with
      | some exit => exact minted
      | none =>
        have others := ih (nValueOut + txout.nValue) next
        exact IsTrans.trans _ _ _ minted others

/-! ## What a check of a transaction does to the database -/

theorem outsideState_checkSpendInputs
    (lib : ZerocoinLib) (fVerifySignature : Bool) (hashTxOut : Uint256)
    (txins : List CTxIn) (serials : List CBigNum) (nTotalRedeemed : Int)
    (checks : CheckState) :
    (checkSpendInputs lib fVerifySignature hashTxOut txins serials nTotalRedeemed
      checks).1.2.outsideState = checks.outsideState := by
  induction txins generalizing serials nTotalRedeemed with
  | nil => rfl
  | cons txin rest ih =>
    rw [checkSpendInputs]
    split_ifs
    · exact ih serials nTotalRedeemed
    · cases lib.txInToZerocoinSpend txin with
      | none => rfl
      | some newSpend =>
        dsimp only
        split_ifs
        case neg => exact ih _ _
        all_goals rfl

theorem outsideState_checkZerocoinSpend
    (lib : ZerocoinLib) (fVerifySignature : Bool) (tx : CTransaction)
    (checks : CheckState) :
    (checkZerocoinSpend lib fVerifySignature tx checks).2.outsideState = checks.outsideState := by
  have kept := outsideState_checkSpendInputs lib fVerifySignature (lib.hashOutputs tx.vout)
    tx.vin [] 0 checks
  unfold checkZerocoinSpend
  split_ifs
  · rfl
  · generalize checkSpendInputs lib fVerifySignature (lib.hashOutputs tx.vout) tx.vin [] 0
      checks = outcome at kept ⊢
    obtain ⟨⟨exit, next⟩, serials, nTotalRedeemed⟩ := outcome
    cases exit with
    | some exit => exact kept
    | none =>
      cases tx.getValueOut with
      | none => exact kept
      | some nValueOut =>
        dsimp only
        split_ifs <;> exact kept

/-- The transaction has inputs and outputs, and is not too large. -/
def CTransaction.isShaped (tx : CTransaction) : Bool :=
  !tx.vin.isEmpty && !tx.vout.isEmpty && !(maxZerocoinTxSize < tx.getSerializeSize)

/-- The stages of `CheckTransaction` after its loop over the outputs. -/
def inputStages (params : CChainParams) (lib : ZerocoinLib)
    (fVerifySignature fZerocoinActive : Bool) (tx : CTransaction) :
    List (Stage CheckState) :=
  (checkTransactionStages params lib fVerifySignature fZerocoinActive tx).drop 4

theorem frame_inputStages
    (params : CChainParams) (lib : ZerocoinLib) (fVerifySignature fZerocoinActive : Bool)
    (tx : CTransaction) :
    Stage.Frame CheckState.zerocoinDB
      (Stage.sequence (inputStages params lib fVerifySignature fZerocoinActive tx)) := by
  apply Stage.frame_sequence
  intro stage member
  simp only [inputStages, checkTransactionStages, List.drop_succ_cons, List.drop_zero,
    List.mem_cons, List.not_mem_nil, or_false] at member
  rcases member with rfl | rfl | rfl | rfl | rfl
  · exact Stage.frame_rejectIf _ fun _ => rfl
  · exact Stage.frame_rejectIf _ fun _ => rfl
  · apply Stage.frame_when
    apply Stage.frame_require
    · intro checks
      exact congrArg Prod.fst (outsideState_checkZerocoinSpend lib fVerifySignature tx checks)
    · exact fun _ => rfl
  · exact Stage.frame_rejectIf _ fun _ => rfl
  · intro checks
    split <;> rfl

/-- Only the loop over the outputs changes the database. -/
theorem zerocoinDB_checkTransaction
    (params : CChainParams) (lib : ZerocoinLib) (fVerifySignature fZerocoinActive : Bool)
    (tx : CTransaction) (checks : CheckState) :
    (checkTransaction params lib fVerifySignature fZerocoinActive tx checks).2.zerocoinDB =
      if tx.isShaped then
        (checkOutputs params lib fZerocoinActive tx tx.vout 0 checks).2.zerocoinDB
      else checks.zerocoinDB := by
  unfold checkTransaction Stage.run Stage.finish checkTransactionStages
  unfold CTransaction.isShaped
  simp only [Stage.sequence_cons_rejectIf (fun _ : CheckState => tx.vin.isEmpty),
    Stage.sequence_cons_rejectIf (fun _ : CheckState => tx.vout.isEmpty),
    Stage.sequence_cons_rejectIf
      (fun _ : CheckState => decide (maxZerocoinTxSize < tx.getSerializeSize))]
  cases tx.vin.isEmpty with
  | true => rfl
  | false =>
    cases tx.vout.isEmpty with
    | true => rfl
    | false =>
      cases decide (maxZerocoinTxSize < tx.getSerializeSize) with
      | true => rfl
      | false =>
        have kept := frame_inputStages params lib fVerifySignature fZerocoinActive tx
        simp only [Bool.false_eq_true, if_false, Bool.not_false, Bool.and_self, if_true]
        rw [Stage.sequence_cons]
        generalize checkOutputs params lib fZerocoinActive tx tx.vout 0 checks = outcome
        obtain ⟨exit, next⟩ := outcome
        cases exit with
        | some exit => rfl
        | none => exact kept next

/-! ## Coming to a new mint

A check comes to a new mint when it passes everything in front of it.  Up to the
first one the database is as it was at the start. -/

/-- Among outputs after a total, the loop comes to a mint that is not recorded. -/
def newMintInOutputs (params : CChainParams) (lib : ZerocoinLib)
    (fZerocoinActive : Bool) (tx : CTransaction) (db : CZerocoinDB) :
    List CTxOut → Int → Bool
  | [], _ => false
  | txout :: rest, nValueOut =>
    let inRest := newMintInOutputs params lib fZerocoinActive tx db rest
      (nValueOut + txout.nValue)
    outputPasses params tx txout nValueOut &&
      if fZerocoinActive && txout.isZerocoinMint then
        match txOutToPublicCoin txout with
        | none => false
        | some pubCoin =>
          lib.validate pubCoin &&
            match db.mints pubCoin.value with
            | none => true
            | some hashFromDB => hashFromDB == tx.hash && inRest
      else inRest

/-- `CheckTransaction` comes to a new mint. -/
def newMintInTransaction (params : CChainParams) (lib : ZerocoinLib)
    (fZerocoinActive : Bool) (tx : CTransaction) (db : CZerocoinDB) : Bool :=
  tx.isShaped && newMintInOutputs params lib fZerocoinActive tx db tx.vout 0

/-- Among transactions after some serials, the loop of `CheckBlock` comes to a new
mint. -/
def newMintInTransactions (context : ChainContext) (node : NodeLocal)
    (fZerocoinActive : Bool) :
    List CTransaction → List CBigNum → CheckState → Bool
  | [], _, _ => false
  | tx :: rest, vBlockSerials, checks =>
    newMintInTransaction context.params context.lib fZerocoinActive tx
        checks.zerocoinDB ||
      match checkTransaction context.params context.lib node.fVerifySignature
          fZerocoinActive tx checks with
      | (.accept, checked) =>
        let spends := if tx.isZerocoinSpend then tx.zerocoinSpendInputs else []
        match addBlockSerials context.lib spends vBlockSerials checked with
        | ((none, passed), serials) =>
          newMintInTransactions context node fZerocoinActive rest serials passed
        | _ => false
      | _ => false

/-- `CheckBlock` comes to a new mint. -/
def newMintInBlock (context : ChainContext) (node : NodeLocal)
    (fCheckMerkleRoot : Bool) (block : CBlock) (checks : CheckState) : Bool :=
  match Stage.sequence
      (checkBlockHeaderStage context node block ::
        checkBlockTests context node fCheckMerkleRoot block) checks with
  | (none, reached) =>
    newMintInTransactions context node block.fZerocoinActive block.vtx [] reached
  | _ => false

/-- A mint was recorded that was not there before. -/
def CheckState.RecordsMint (before after : CheckState) : Prop :=
  ∃ value, before.zerocoinDB.mints value = none ∧ after.zerocoinDB.mints value ≠ none

theorem CheckState.RecordsMint.keeps
    {before middle after : CheckState}
    (records : before.RecordsMint middle)
    (keeps : middle.KeepsMints after) :
    before.RecordsMint after := by
  obtain ⟨value, unrecorded, recorded⟩ := records
  obtain ⟨hashTx, held⟩ := Option.ne_none_iff_exists'.mp recorded
  refine ⟨value, unrecorded, ?_⟩
  rw [keeps.mints value hashTx held]
  exact Option.some_ne_none hashTx

/-- What a check does to the database: nothing, or it records a new mint. -/
def DecidesMints (newMint : Bool) (before after : CheckState) : Prop :=
  if newMint then before.RecordsMint after else after.zerocoinDB = before.zerocoinDB

theorem DecidesMints.unchanged_iff
    (decides : DecidesMints newMint before after) :
    after.zerocoinDB = before.zerocoinDB ↔ newMint = false := by
  cases newMint with
  | false => exact ⟨fun _ => rfl, fun _ => decides⟩
  | true =>
    obtain ⟨value, unrecorded, recorded⟩ := decides
    constructor
    · intro same
      rw [same] at recorded
      exact absurd unrecorded recorded
    · intro impossible
      cases impossible

/-- One output that breaks no rule on values: its mint, if it has one, is recorded
already, is refused, or is new. -/
theorem newMintInOutputs_cons
    (lib : ZerocoinLib) (fZerocoinActive : Bool)
    (passes : outputPasses params tx txout nValueOut = true)
    (rest : List CTxOut) (checks : CheckState) :
    let here := newMintInOutputs params lib fZerocoinActive tx checks.zerocoinDB
      (txout :: rest) nValueOut
    let outcome := mintStage lib fZerocoinActive tx txout checks
    (outcome = (none, checks) ∧
      here = newMintInOutputs params lib fZerocoinActive tx checks.zerocoinDB rest
        (nValueOut + txout.nValue)) ∨
    (outcome.1 = some .reject ∧ outcome.2.zerocoinDB = checks.zerocoinDB ∧ here = false) ∨
    (outcome.1 = none ∧ checks.RecordsMint outcome.2 ∧ here = true) := by
  rw [newMintInOutputs, passes, Bool.true_and]
  unfold mintStage
  cases (fZerocoinActive && txout.isZerocoinMint) with
  | false => exact Or.inl ⟨rfl, rfl⟩
  | true =>
    unfold Stage.when Stage.require checkZerocoinMint
    cases txOutToPublicCoin txout with
    | none => exact Or.inr (Or.inl ⟨rfl, rfl, rfl⟩)
    | some pubCoin =>
      cases valid : lib.validate pubCoin with
      | false =>
        refine Or.inr (Or.inl ?_)
        simp [valid, CheckState.dos]
      | true =>
        unfold CZerocoinDB.recordMintToDB
        cases held : checks.zerocoinDB.mints pubCoin.value with
        | none =>
          have recorded : checks.RecordsMint
              { checks with
                zerocoinDB := checks.zerocoinDB.writeCoinMint pubCoin tx.hash } := by
            refine ⟨pubCoin.value, held, ?_⟩
            simp [CZerocoinDB.writeCoinMint]
          refine Or.inr (Or.inr ?_)
          simpa [valid, held] using recorded
        | some hashFromDB =>
          by_cases same : hashFromDB = tx.hash
          · refine Or.inl ?_
            simp [valid, held, same]
          · have differs : (hashFromDB == tx.hash) = false := by simpa using same
            refine Or.inr (Or.inl ?_)
            simp [valid, held, differs, CheckState.dos]

theorem decidesMints_checkOutputs
    (params : CChainParams) (lib : ZerocoinLib) (fZerocoinActive : Bool)
    (tx : CTransaction) (outs : List CTxOut) (nValueOut : Int) (checks : CheckState) :
    DecidesMints
      (newMintInOutputs params lib fZerocoinActive tx checks.zerocoinDB outs nValueOut)
      checks (checkOutputs params lib fZerocoinActive tx outs nValueOut checks).2 := by
  induction outs generalizing nValueOut with
  | nil => exact rfl
  | cons txout rest ih =>
    rcases checkOutputs_cons params lib fZerocoinActive tx txout rest nValueOut checks with
      ⟨fails, _, same⟩ | ⟨passes, step⟩
    · rw [newMintInOutputs, fails]
      exact same
    · have here := newMintInOutputs_cons lib fZerocoinActive passes rest checks
      rw [step]
      generalize mintStage lib fZerocoinActive tx txout checks = outcome at here ⊢
      obtain ⟨exit, next⟩ := outcome
      rcases here with ⟨unchanged, here⟩ | ⟨rfl, same, here⟩ | ⟨rfl, records, here⟩
      · cases unchanged
        rw [here]
        exact ih (nValueOut + txout.nValue)
      · rw [here]
        exact same
      · rw [here]
        exact records.keeps (keepsMints_checkOutputs params lib fZerocoinActive tx rest _ next)

theorem decidesMints_checkTransaction
    (params : CChainParams) (lib : ZerocoinLib) (fVerifySignature fZerocoinActive : Bool)
    (tx : CTransaction) (checks : CheckState) :
    DecidesMints
      (newMintInTransaction params lib fZerocoinActive tx checks.zerocoinDB) checks
      (checkTransaction params lib fVerifySignature fZerocoinActive tx checks).2 := by
  have outputs := decidesMints_checkOutputs params lib fZerocoinActive tx tx.vout 0 checks
  have database := zerocoinDB_checkTransaction params lib fVerifySignature fZerocoinActive tx checks
  unfold newMintInTransaction
  cases shaped : tx.isShaped with
  | false =>
    rw [shaped] at database
    exact database
  | true =>
    rw [shaped, if_pos rfl] at database
    unfold DecidesMints CheckState.RecordsMint at outputs ⊢
    rw [database, Bool.true_and]
    exact outputs

theorem keepsMints_checkTransaction
    (params : CChainParams) (lib : ZerocoinLib) (fVerifySignature fZerocoinActive : Bool)
    (tx : CTransaction) (checks : CheckState) :
    checks.KeepsMints
      (checkTransaction params lib fVerifySignature fZerocoinActive tx checks).2 := by
  have database := zerocoinDB_checkTransaction params lib fVerifySignature fZerocoinActive tx checks
  unfold CheckState.KeepsMints
  rw [database]
  split_ifs
  · exact keepsMints_checkOutputs params lib fZerocoinActive tx tx.vout 0 checks
  · exact keepsMints_of_eq rfl

theorem zerocoinDB_addBlockSerials
    (lib : ZerocoinLib) (txins : List CTxIn) (serials : List CBigNum)
    (checks : CheckState) :
    (addBlockSerials lib txins serials checks).1.2.zerocoinDB = checks.zerocoinDB := by
  induction txins generalizing serials with
  | nil => rfl
  | cons txin rest ih =>
    rw [addBlockSerials]
    cases lib.txInToZerocoinSpend txin with
    | none => rfl
    | some spend =>
      dsimp only
      split_ifs
      · rfl
      · exact ih _

/-- What the first transaction leaves recorded stays recorded, when the others keep
what is. -/
theorem keepsMints_afterFirst
    (others : ∀ serials, Stage.Relates CheckState.KeepsMints
      (checkTransactions context node fZerocoinActive rest serials))
    (tx : CTransaction) (serials : List CBigNum) (checks : CheckState) :
    (checkTransaction context.params context.lib node.fVerifySignature fZerocoinActive tx
      checks).2.KeepsMints
        (checkTransactions context node fZerocoinActive (tx :: rest) serials checks).2 := by
  rw [checkTransactions]
  generalize checkTransaction context.params context.lib node.fVerifySignature
    fZerocoinActive tx checks = outcome
  obtain ⟨exit, checked⟩ := outcome
  cases exit with
  | accept =>
    have added := zerocoinDB_addBlockSerials context.lib
      (if tx.isZerocoinSpend then tx.zerocoinSpendInputs else []) serials checked
    dsimp only
    generalize addBlockSerials context.lib
      (if tx.isZerocoinSpend then tx.zerocoinSpendInputs else []) serials checked =
        outcome at added ⊢
    obtain ⟨⟨exit, passed⟩, seen⟩ := outcome
    have sofar := keepsMints_of_eq added
    cases exit with
    | some exit => exact sofar
    | none => exact IsTrans.trans _ _ _ sofar (others seen passed)
  | _ => exact refl checked

theorem keepsMints_checkTransactions
    (context : ChainContext) (node : NodeLocal) (fZerocoinActive : Bool)
    (txs : List CTransaction) (serials : List CBigNum) :
    Stage.Relates CheckState.KeepsMints
      (checkTransactions context node fZerocoinActive txs serials) := by
  induction txs generalizing serials with
  | nil =>
    intro checks
    exact refl checks
  | cons tx rest ih =>
    intro checks
    have first := keepsMints_checkTransaction context.params context.lib
      node.fVerifySignature fZerocoinActive tx checks
    exact IsTrans.trans _ _ _ first (keepsMints_afterFirst ih tx serials checks)

theorem DecidesMints.of_eq
    (same : middle.zerocoinDB = before.zerocoinDB)
    (decides : DecidesMints newMint middle after) :
    DecidesMints newMint before after := by
  unfold DecidesMints CheckState.RecordsMint at decides ⊢
  rwa [← same]

theorem DecidesMints.to_eq
    (decides : DecidesMints newMint before middle)
    (same : after.zerocoinDB = middle.zerocoinDB) :
    DecidesMints newMint before after := by
  unfold DecidesMints CheckState.RecordsMint at decides ⊢
  rwa [same]

theorem decidesMints_checkTransactions
    (context : ChainContext) (node : NodeLocal) (fZerocoinActive : Bool)
    (txs : List CTransaction) (serials : List CBigNum) (checks : CheckState) :
    DecidesMints
      (newMintInTransactions context node fZerocoinActive txs serials checks) checks
      (checkTransactions context node fZerocoinActive txs serials checks).2 := by
  induction txs generalizing serials checks with
  | nil => exact rfl
  | cons tx rest ih =>
    have first := decidesMints_checkTransaction context.params context.lib
      node.fVerifySignature fZerocoinActive tx checks
    rw [newMintInTransactions]
    cases here : newMintInTransaction context.params context.lib fZerocoinActive tx
        checks.zerocoinDB with
    | true =>
      rw [here] at first
      exact CheckState.RecordsMint.keeps first (keepsMints_afterFirst
        (keepsMints_checkTransactions context node fZerocoinActive rest) tx serials checks)
    | false =>
      rw [here] at first
      rw [Bool.false_or, checkTransactions]
      generalize checkTransaction context.params context.lib node.fVerifySignature
        fZerocoinActive tx checks = outcome at first ⊢
      obtain ⟨exit, checked⟩ := outcome
      cases exit with
      | accept =>
        have added := zerocoinDB_addBlockSerials context.lib
          (if tx.isZerocoinSpend then tx.zerocoinSpendInputs else []) serials checked
        dsimp only
        generalize addBlockSerials context.lib
          (if tx.isZerocoinSpend then tx.zerocoinSpendInputs else []) serials checked =
            outcome at added ⊢
        obtain ⟨⟨exit, passed⟩, seen⟩ := outcome
        cases exit with
        | some exit => exact added.trans first
        | none => exact (ih seen passed).of_eq (added.trans first)
      | _ => exact first

section

variable (context : ChainContext) (node : NodeLocal) (fCheckMerkleRoot : Bool)

theorem frame_beforeTransactions
    (block : CBlock) :
    Stage.Frame CheckState.zerocoinDB
      (Stage.sequence
        (checkBlockHeaderStage context node block ::
          checkBlockTests context node fCheckMerkleRoot block)) := by
  apply Stage.frame_sequence
  intro stage member
  rcases List.mem_cons.mp member with rfl | inTests
  · intro checks
    unfold checkBlockHeaderStage checkBlockHeader
    split_ifs <;> rfl
  · simp only [checkBlockTests, List.mem_cons, List.not_mem_nil, or_false] at inTests
    rcases inTests with rfl | rfl | rfl | rfl | rfl | rfl | rfl | rfl | rfl | rfl
    all_goals exact Stage.frame_rejectIf _ fun _ => rfl

/-- Nothing that `CheckBlock` does to the database takes a record away. -/
theorem keepsMints_checkBlock
    (block : CBlock) (checks : CheckState) :
    checks.KeepsMints (checkBlock context node fCheckMerkleRoot block checks).2 := by
  have before : Stage.Relates CheckState.KeepsMints
      (Stage.sequence
        (checkBlockHeaderStage context node block ::
          checkBlockTests context node fCheckMerkleRoot block)) := by
    intro reached
    exact keepsMints_of_eq (frame_beforeTransactions context node fCheckMerkleRoot block reached)
  have whole : Stage.Relates CheckState.KeepsMints
      (Stage.sequence
        (checkBlockHeaderStage context node block ::
          checkBlockStages context node fCheckMerkleRoot block)) := by
    unfold checkBlockStages
    rw [← List.cons_append]
    apply Stage.relates_append before
    apply Stage.relates_sequence
    intro stage member
    simp only [List.mem_cons, List.not_mem_nil, or_false] at member
    rcases member with rfl | rfl
    · exact keepsMints_checkTransactions context node block.fZerocoinActive block.vtx []
    · exact Stage.relates_rejectIf _ fun _ => keepsMints_of_eq rfl
  exact whole checks

theorem decidesMints_checkBlock
    (block : CBlock) (checks : CheckState) :
    DecidesMints (newMintInBlock context node fCheckMerkleRoot block checks) checks
      (checkBlock context node fCheckMerkleRoot block checks).2 := by
  have kept := frame_beforeTransactions context node fCheckMerkleRoot block checks
  unfold checkBlock Stage.run Stage.finish checkBlockStages newMintInBlock
  rw [← List.cons_append, Stage.sequence_append]
  generalize Stage.sequence (checkBlockHeaderStage context node block ::
    checkBlockTests context node fCheckMerkleRoot block) checks = outcome at kept ⊢
  obtain ⟨exit, reached⟩ := outcome
  cases exit with
  | some exit => exact kept
  | none =>
    apply DecidesMints.of_eq kept
    have loop := decidesMints_checkTransactions context node block.fZerocoinActive
      block.vtx [] reached
    dsimp only
    rw [Stage.sequence_cons]
    generalize checkTransactions context node block.fZerocoinActive block.vtx [] reached =
      outcome at loop ⊢
    obtain ⟨exit, checked⟩ := outcome
    cases exit with
    | some exit => exact loop
    | none =>
      dsimp only
      rw [Stage.sequence_cons_rejectIf]
      split_ifs <;> exact loop

end

end ColossusCoin
