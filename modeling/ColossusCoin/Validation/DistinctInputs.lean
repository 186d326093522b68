import ColossusCoin.Validation.ConnectBlock
import ColossusCoin.Validation.ProofOfWork
import Mathlib.Algebra.BigOperators.Group.Finset.Basic

/-!
# Transactions that name an output twice

`CheckTransaction` looks for duplicate inputs, but it does not remember the
outpoints of inputs whose scripts start like a zerocoin spend.  Whether such
inputs repeat an outpoint decides whether each spent output is counted once and
whether the assertion of `UpdateCoins` can fail.
-/

namespace ColossusCoin

/-- No input with a zerocoin spend script is followed by one that names the same
output. -/
def CTransaction.RepeatsNoZerocoinInput (tx : CTransaction) : Prop :=
  tx.vin.Pairwise fun first second =>
    first.scriptSig.isZerocoinSpend = true → first.prevout ≠ second.prevout

/-- For a transaction without duplicates among its other inputs, the outpoints are
distinct exactly when no zerocoin input is repeated. -/
theorem nodup_prevouts_iff
    {tx : CTransaction}
    (checked : hasDuplicateInput tx.vin [] = false) :
    tx.prevouts.Nodup ↔ tx.RepeatsNoZerocoinInput := by
  have others := ((hasDuplicateInput_eq_false_iff tx.vin []).mp checked).2
  unfold CTransaction.prevouts CTransaction.RepeatsNoZerocoinInput List.Nodup
  rw [List.pairwise_map]
  constructor
  · intro distinct
    apply distinct.imp
    intro first second apart _
    exact apart
  · intro zerocoins
    apply (others.and zerocoins).imp
    rintro first second ⟨ordinary, zerocoin⟩
    cases kind : first.scriptSig.isZerocoinSpend with
    | false => exact ordinary kind
    | true => exact zerocoin kind

namespace CCoinsViewCache

/-- The value of an output in a view. -/
def outputValue (view : CCoinsViewCache) (out : COutPoint) : Int :=
  (view.toView.coinsAt out.hash).valueAt out.n

variable {view : CCoinsViewCache}

theorem getOutputFor_isSome
    (available : view.haveInput txin = true) :
    ∃ txout, view.getOutputFor txin = some txout ∧
      txout.nValue = view.outputValue txin.prevout := by
  rw [getOutputFor_of_haveInput available]
  rw [haveInput_eq] at available
  unfold CCoins.isAvailable at available
  unfold outputValue CCoins.valueAt
  cases atPosition : (view.toView.coinsAt txin.prevout.hash).vout[txin.prevout.n]? with
  | none => simp [atPosition] at available
  | some txout => exact ⟨txout, rfl, rfl⟩

theorem haveInput_of_haveInputs
    (spends : tx.spendsNoCoins = false)
    (available : view.haveInputs tx = true) :
    ∀ txin ∈ tx.vin, view.haveInput txin = true := by
  simpa [haveInputs, spends] using available

/-- A fold over the outputs of available inputs meets no failing assertion. -/
theorem foldlM_getOutputFor
    (add : α → CTxIn → CTxOut → α)
    {txins : List CTxIn}
    (available : ∀ txin ∈ txins, view.haveInput txin = true) (start : α) :
    (txins.foldlM (fun total txin =>
      (view.getOutputFor txin).map (add total txin)) start).isSome = true := by
  induction txins generalizing start with
  | nil => rfl
  | cons txin rest ih =>
    obtain ⟨txout, found, _⟩ := getOutputFor_isSome (available txin List.mem_cons_self)
    rw [List.foldlM_cons, found]
    exact ih (fun other member => available other (List.mem_cons_of_mem _ member)) _

theorem foldlM_outputValue
    {txins : List CTxIn}
    (available : ∀ txin ∈ txins, view.haveInput txin = true) (start : Int) :
    txins.foldlM (fun nResult txin =>
      (view.getOutputFor txin).map fun txout => nResult + txout.nValue) start =
      some (start + (txins.map fun txin => view.outputValue txin.prevout).sum) := by
  induction txins generalizing start with
  | nil => simp
  | cons txin rest ih =>
    obtain ⟨txout, found, value⟩ :=
      getOutputFor_isSome (available txin List.mem_cons_self)
    rw [List.foldlM_cons, found, Option.map_some, Option.bind_eq_bind, Option.bind_some,
      ih (fun other member => available other (List.mem_cons_of_mem _ member)),
      value, List.map_cons, List.sum_cons, Int.add_assoc]

theorem getValueIn_of_haveInputs
    {tx : CTransaction}
    (spends : tx.spendsNoCoins = false)
    (available : view.haveInputs tx = true) :
    view.getValueIn tx = some (tx.prevouts.map view.outputValue).sum := by
  unfold getValueIn
  rw [foldlM_outputValue (haveInput_of_haveInputs spends available), Int.zero_add,
    CTransaction.prevouts, List.map_map]
  rfl

end CCoinsViewCache

/-- Each output that the transaction spends is counted once, in every view that
has its inputs, and applying the transaction meets no failing assertion. -/
structure CTransaction.CountsInputsOnce (tx : CTransaction) : Prop where
  distinct : tx.prevouts.Nodup
  valueIn : ∀ view : CCoinsViewCache, view.Valid → view.haveInputs tx = true →
    view.getValueIn tx = some (∑ out ∈ tx.prevouts.toFinset, view.outputValue out)
  spendable : ∀ (view : CCoinsViewCache) (nHeight : Int), view.Valid →
    view.haveInputs tx = true →
    (CCoinsViewCache.updateCoins tx view nHeight).isSome = true

theorem updateCoins_isSome
    (valid : view.Valid)
    (available : view.haveInputs tx = true)
    (distinct : tx.spendsNoCoins = false → tx.prevouts.Nodup) (nHeight : Int) :
    (CCoinsViewCache.updateCoins tx view nHeight).isSome = true := by
  unfold CCoinsViewCache.updateCoins
  rw [Option.isSome_map]
  cases exempt : tx.spendsNoCoins with
  | true => rfl
  | false =>
    exact CCoinsViewCache.spendInputs_isSome valid (distinct exempt)
      (CCoinsViewCache.haveInput_of_haveInputs exempt available)

theorem countsInputsOnce_of_nodup
    {tx : CTransaction}
    (spends : tx.spendsNoCoins = false)
    (distinct : tx.prevouts.Nodup) :
    tx.CountsInputsOnce where
  distinct := distinct
  valueIn := by
    intro view _ available
    rw [CCoinsViewCache.getValueIn_of_haveInputs spends available, List.sum_toFinset _ distinct]
  spendable := by
    intro view nHeight valid available
    exact updateCoins_isSome valid available (fun _ => distinct) nHeight

/-! ## The loop of `ConnectBlock` -/

section Loop

variable (env : ConnectEnv) (block : CBlock)

/-- The view is valid and has the inputs of the transaction, if it spends any. -/
def HasInputs (tx : CTransaction) (view : CCoinsViewCache) : Prop :=
  view.Valid ∧ view.haveInputs tx = true

theorem triple_rejectIf_view
    (test : ConnectState → Bool) (level : Int) (code : Nat) (reason : String)
    (property : CCoinsViewCache → Prop) :
    Stage.Triple (fun state => property state.view)
      (Stage.rejectIf test (ConnectState.dos level code reason))
      (fun state => property state.view) :=
  (Stage.triple_rejectIf _ _).weaken fun _ holds => holds.1

theorem triple_connectSpend (tx : CTransaction) (txin : CTxIn)
    (property : CCoinsViewCache → Prop) :
    Stage.Triple (fun state => property state.view) (connectSpend env tx txin)
      (fun state => property state.view) := by
  intro state holds
  unfold connectSpend
  cases env.context.lib.txInToZerocoinSpend txin with
  | none => simp
  | some spend =>
    dsimp only
    split
    · exact ⟨by simp, fun _ => holds⟩
    · simp

theorem triple_zerocoinSpendStages (tx : CTransaction)
    (property : CCoinsViewCache → Prop) :
    Stage.Triple (fun state => property state.view)
      (Stage.sequence (zerocoinSpendStages env tx)) (fun state => property state.view) := by
  apply Stage.triple_sequence_cons (triple_rejectIf_view _ _ _ _ property)
  apply Stage.triple_sequence_cons _ Stage.triple_sequence_nil
  apply Stage.triple_forEach
  intro txin _
  exact triple_connectSpend env tx txin property

theorem triple_addP2SHSigOps
    (spends : tx.spendsNoCoins = false) :
    Stage.Triple (fun state => HasInputs tx state.view) (addP2SHSigOps tx)
      (fun state => HasInputs tx state.view) := by
  intro state holds
  have counted := CCoinsViewCache.foldlM_getOutputFor
    (fun nSigOps txin prevout =>
      if prevout.scriptPubKey.isPayToScriptHash then
        nSigOps + prevout.scriptPubKey.getSigOpCountOf txin.scriptSig
      else nSigOps)
    (CCoinsViewCache.haveInput_of_haveInputs spends holds.2) 0
  change (state.view.getP2SHSigOpCount tx).isSome = true at counted
  obtain ⟨n, found⟩ := Option.isSome_iff_exists.mp counted
  rw [addP2SHSigOps, found]
  exact ⟨by simp, fun _ => holds⟩

theorem triple_addValueIn
    (spends : tx.spendsNoCoins = false) :
    Stage.Triple (fun state => HasInputs tx state.view) (addValueIn tx)
      (fun state => HasInputs tx state.view) := by
  intro state holds
  rw [addValueIn, CCoinsViewCache.getValueIn_of_haveInputs spends holds.2]
  split_ifs
  · exact ⟨by simp, fun _ => holds⟩
  · cases tx.getValueOut with
    | none => simp
    | some nTxValueOut => exact ⟨by simp, fun _ => holds⟩

theorem triple_checkInputsStage
    (spends : tx.spendsNoCoins = false) :
    Stage.Triple (fun state => HasInputs tx state.view) (checkInputsStage env block tx)
      (fun state => HasInputs tx state.view) := by
  intro state holds
  refine ⟨fun fails => ?_, fun _ => holds⟩
  obtain ⟨txin, member, absent⟩ := (endsAtInputs_checkInputs _).missing fails
  have available := CCoinsViewCache.haveInput_of_haveInputs spends holds.2 txin member
  rw [absent] at available
  cases available

theorem triple_minFeeStage
    (spends : tx.spendsNoCoins = false) :
    Stage.Triple (fun state => HasInputs tx state.view) (minFeeStage env tx)
      (fun state => HasInputs tx state.view) := by
  intro state holds
  rw [minFeeStage, CCoinsViewCache.getValueIn_of_haveInputs spends holds.2]
  cases tx.getValueOut with
  | none => simp
  | some nTxValueOut =>
    dsimp only
    split_ifs
    · simp
    · exact ⟨by simp, fun _ => holds⟩

theorem triple_coinSpendStages
    (spends : tx.spendsNoCoins = false) :
    Stage.Triple (fun state => state.view.Valid)
      (Stage.sequence (coinSpendStages env block tx))
      (fun state => HasInputs tx state.view) := by
  have available : Stage.Triple (fun state : ConnectState => state.view.Valid)
      (Stage.rejectIf (fun state => !state.view.haveInputs tx)
        (ConnectState.dos 100 rejectInvalid "bad-txns-inputs-missingorspent"))
      (fun state => HasInputs tx state.view) := by
    apply (Stage.triple_rejectIf _ _).weaken
    rintro state ⟨valid, found⟩
    exact ⟨valid, by simpa using found⟩
  apply Stage.triple_sequence_cons available
  apply Stage.triple_sequence_cons (triple_rejectIf_view _ _ _ _ (HasInputs tx))
  apply Stage.triple_sequence_cons (triple_addP2SHSigOps spends)
  apply Stage.triple_sequence_cons (triple_rejectIf_view _ _ _ _ (HasInputs tx))
  apply Stage.triple_sequence_cons (triple_addValueIn spends)
  apply Stage.triple_sequence_cons (triple_checkInputsStage env block spends)
  apply Stage.triple_sequence_cons (triple_minFeeStage env spends)
  exact Stage.triple_sequence_nil

theorem triple_branch (tx : CTransaction) :
    Stage.Triple (fun state => state.view.Valid)
      (if tx.isZerocoinSpend then Stage.sequence (zerocoinSpendStages env tx)
      else Stage.when (!tx.isCoinBase) (Stage.sequence (coinSpendStages env block tx)))
      (fun state => HasInputs tx state.view) := by
  have exempt : tx.spendsNoCoins = true → ∀ view, view.Valid →
      HasInputs tx view := by
    intro spendsNone view valid
    exact ⟨valid, by simp [CCoinsViewCache.haveInputs, spendsNone]⟩
  cases zerocoin : tx.isZerocoinSpend with
  | true =>
    apply (triple_zerocoinSpendStages env tx CCoinsViewCache.Valid).weaken
    intro state valid
    exact exempt (by simp [CTransaction.spendsNoCoins, zerocoin]) _ valid
  | false =>
    cases coinBase : tx.isCoinBase with
    | true =>
      intro state valid
      exact ⟨by simp [Stage.when], fun _ =>
        exempt (by simp [CTransaction.spendsNoCoins, coinBase]) _ valid⟩
    | false =>
      exact triple_coinSpendStages env block
        (by simp [CTransaction.spendsNoCoins, coinBase, zerocoin])

theorem triple_addValueOut (tx : CTransaction) :
    Stage.Triple (fun state => HasInputs tx state.view) (addValueOut tx)
      (fun state => HasInputs tx state.view ∧ ∀ txout ∈ tx.vout, 0 ≤ txout.nValue) := by
  intro state holds
  unfold addValueOut
  cases returned : tx.getValueOut with
  | none => simp
  | some nTxValueOut =>
    exact ⟨by simp, fun _ => ⟨holds, (CTransaction.getValueOut_eq_some returned).2⟩⟩

theorem triple_applyTransaction
    (distinct : tx.spendsNoCoins = false → tx.prevouts.Nodup) :
    Stage.Triple
      (fun state => HasInputs tx state.view ∧ ∀ txout ∈ tx.vout, 0 ≤ txout.nValue)
      (applyTransaction tx) (fun state => state.view.Valid) := by
  rintro state ⟨holds, nonneg⟩
  have applies := updateCoins_isSome holds.1 holds.2 distinct state.pindex.nHeight
  obtain ⟨⟨txundo, updated⟩, result⟩ := Option.isSome_iff_exists.mp applies
  rw [applyTransaction, result]
  refine ⟨by simp, fun _ => ?_⟩
  exact CCoinsViewCache.updateCoins_of_valid holds.1 nonneg result

/-- The body of the loop meets no failing assertion on a transaction with distinct
inputs, and keeps the view valid. -/
theorem triple_connectTransaction
    (distinct : tx.spendsNoCoins = false → tx.prevouts.Nodup) :
    Stage.Triple (fun state => state.view.Valid) (connectTransaction env block tx)
      (fun state => state.view.Valid) := by
  have counted : Stage.Triple (fun state : ConnectState => state.view.Valid)
      (Stage.update fun state =>
        { state with nSigOps := state.nSigOps + tx.getLegacySigOpCount })
      (fun state => state.view.Valid) :=
    Stage.triple_update fun _ valid => valid
  apply Stage.triple_sequence_cons counted
  apply Stage.triple_sequence_cons (triple_rejectIf_view _ _ _ _ CCoinsViewCache.Valid)
  apply Stage.triple_sequence_cons (triple_rejectIf_view _ _ _ _ CCoinsViewCache.Valid)
  apply Stage.triple_sequence_cons (triple_branch env block tx)
  apply Stage.triple_sequence_cons (triple_addValueOut tx)
  apply Stage.triple_sequence_cons (triple_applyTransaction distinct)
  exact Stage.triple_sequence_nil

theorem connectTransactions_ne_assertFails
    (valid : state.view.Valid)
    (distinct : ∀ tx ∈ block.vtx, tx.spendsNoCoins = false → tx.prevouts.Nodup) :
    (connectTransactions env block state).1 ≠ some .assertFails := by
  have loop : Stage.Triple (fun state : ConnectState => state.view.Valid)
      (connectTransactions env block) (fun state => state.view.Valid) := by
    apply Stage.triple_forEach
    intro tx member
    exact triple_connectTransaction env block (distinct tx member)
  exact (loop state valid).1

end Loop

/-- For a block of transactions that `CheckTransaction` accepts: each of those that
spend coins counts its inputs once, and `ConnectBlock` meets no failing assertion on
them in any view, exactly when none of them repeats a zerocoin input. -/
theorem inputs_counted_once_iff
    (params : CChainParams) (lib : ZerocoinLib) (fVerifySignature fZerocoinActive : Bool)
    (block : CBlock)
    (accepted : ∀ tx ∈ block.vtx, ∃ checks,
      (checkTransaction params lib fVerifySignature fZerocoinActive tx checks).1 =
        .accept) :
    ((∀ tx ∈ block.vtx, tx.spendsNoCoins = false → tx.CountsInputsOnce) ∧
      ∀ (env : ConnectEnv) (state : ConnectState), state.view.Valid →
        (connectTransactions env block state).1 ≠ some .assertFails) ↔
      ∀ tx ∈ block.vtx, tx.spendsNoCoins = false → tx.RepeatsNoZerocoinInput := by
  have distinctIff : ∀ tx ∈ block.vtx, tx.prevouts.Nodup ↔ tx.RepeatsNoZerocoinInput := by
    intro tx member
    obtain ⟨checks, passes⟩ := accepted tx member
    exact nodup_prevouts_iff (hasDuplicateInput_of_accept passes)
  constructor
  · rintro ⟨counted, _⟩ tx member spends
    exact (distinctIff tx member).mp (counted tx member spends).distinct
  · intro repeatsNone
    have distinct : ∀ tx ∈ block.vtx, tx.spendsNoCoins = false → tx.prevouts.Nodup :=
      fun tx member spends => (distinctIff tx member).mpr (repeatsNone tx member spends)
    refine ⟨?_, ?_⟩
    · intro tx member spends
      exact countsInputsOnce_of_nodup spends (distinct tx member spends)
    · intro env state valid
      exact connectTransactions_ne_assertFails env block valid distinct

/-- A view with two unspent outputs of one transaction, under a block. -/
def twoOutputsView : CCoinsViewCache :=
  .overSingle 3
    { fCoinBase := false
      fCoinStake := false
      vout := [{ nValue := coin, scriptPubKey := [0x51] },
        { nValue := coin, scriptPubKey := [0x51] }]
      nHeight := 1
      nVersion := 1 } 1

/-- A transaction that spends the first output with an empty script, and names the
second one in inputs with the given outpoint positions and zerocoin spend scripts. -/
def zerocoinInputsTx (positions : List Nat) : CTransaction where
  hash := 9
  nVersion := 1
  vin :=
    { prevout := ⟨3, 0⟩, scriptSig := [], nSequence := 0 } ::
      positions.map fun n =>
        { prevout := ⟨3, n⟩, scriptSig := [Opcode.zerocoinSpend], nSequence := 0 }
  vout := [{ nValue := coin, scriptPubKey := [0x51] }]
  nLockTime := 0

/-- The block of a coinbase and that transaction. -/
def zerocoinInputsBlock (positions : List Nat) : CBlock :=
  { bareBlock 5 with vtx := [bareCoinBase, zerocoinInputsTx positions] }

/-- An environment on the main network with threads that verify scripts, where the
scripts of the inputs fail. -/
def bareEnv : ConnectEnv where
  context := bareContext
  payments :=
    { toAddress := fun _ => ""
      getScriptForDestination := fun _ => []
      seeSaw := fun _ _ _ => 0 }
  node := bareNode
  masternodes :=
    { isSynced := false
      countEnabled := 0
      stableSize := 0
      mapFinalizedBudgets := []
      mapMasternodeBlocks := fun _ => none
      tipMoneySupply := none }
  chain := { getTransaction := fun _ => none, activeHeight := fun _ => none }
  fraud := { mapInvalidOutPoints := fun _ => false, mapInvalidSerials := fun _ => false }
  ancestors := [CBlockIndex.ofBlock (bareBlock 1) 1]
  fVerifyingBlocks := false
  fTxIndex := false
  nScriptCheckThreads := true
  totalBlocksEstimate := 0
  verifyScript := fun _ _ _ _ => some "Opcode missing or not understood"
  hasValidSerial := fun _ => true
  calculateAccumulatorCheckpoint := fun _ => none
  initialAccumulators := fun _ => 0
  getChecksum := fun _ => 0
  findUndoPos := some 0
  undoWritten := true

/-- The records before that block is connected. -/
def twoOutputsWorld (block : CBlock) : ConnectWorld where
  checks := bareChecks
  view := twoOutputsView
  pindex := CBlockIndex.ofBlock block 2
  txIndex := fun _ => none

/-- Each input of the block names an output of its own. -/
theorem inputs_counted_once_iff_distinct :
    (zerocoinInputsTx [1]).CountsInputsOnce :=
  ((inputs_counted_once_iff .main bareLib true true (zerocoinInputsBlock [1])
    (by
      intro tx member
      refine ⟨bareChecks, ?_⟩
      simp only [zerocoinInputsBlock, List.mem_cons, List.not_mem_nil, or_false] at member
      rcases member with rfl | rfl <;> decide)).mpr
    (by
      intro tx member _
      simp only [zerocoinInputsBlock, List.mem_cons, List.not_mem_nil, or_false] at member
      rcases member with rfl | rfl <;>
        simp [CTransaction.RepeatsNoZerocoinInput, bareCoinBase, zerocoinInputsTx])).1
    (zerocoinInputsTx [1]) (by simp [zerocoinInputsBlock]) (by decide)

/-- A transaction that names an output in two inputs with zerocoin spend scripts is
accepted, its value is counted twice, and `ConnectBlock` fails the assertion of
`UpdateCoins` on it. -/
theorem inputs_repeated_fail_assertion :
    let block := zerocoinInputsBlock [1, 1]
    let tx := zerocoinInputsTx [1, 1]
    (checkTransaction .main bareLib true true tx bareChecks).1 = .accept ∧
      tx.spendsNoCoins = false ∧
      ¬tx.prevouts.Nodup ∧
      twoOutputsView.Valid ∧
      twoOutputsView.haveInputs tx = true ∧
      twoOutputsView.getValueIn tx = some (3 * coin) ∧
      (connectTransactions bareEnv block
        (ConnectState.start bareEnv block (twoOutputsWorld block))).1 =
          some .assertFails ∧
      (connectBlock bareEnv block false false (twoOutputsWorld block)).1 =
        .assertFails := by
  refine ⟨by decide, by decide, by decide, ?_, by decide, by decide, by decide,
    by decide⟩
  exact CCoinsViewCache.valid_overSingle ⟨by decide, by decide⟩ 1

end ColossusCoin
