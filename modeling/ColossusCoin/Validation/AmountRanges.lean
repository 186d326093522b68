import ColossusCoin.Coins.CompressedOutputs
import ColossusCoin.Validation.CountedAmounts
import ColossusCoin.Validation.OwnTests

/-!
# The ranges of amounts

The outputs of checked transactions are not negative, and neither are those that a view of the
unspent outputs has after any number of them were applied.
-/

namespace ColossusCoin

/-- The unspent outputs are not negative. -/
def CCoins.Nonneg (coins : CCoins) : Prop :=
  ∀ txout ∈ coins.vout, txout.isNull = false → 0 ≤ txout.nValue

/-- The unspent outputs of a view are not negative, as those of checked transactions. -/
def CCoinsViewCache.Nonneg (view : CCoinsViewCache) : Prop :=
  ∀ txid, (view.toView.coinsAt txid).Nonneg

/-- Coins without unspent outputs have no negative ones. -/
theorem CCoins.Nonneg.of_same
    {coins other : CCoins}
    (nonneg : other.Nonneg)
    (equal : coins.same other = true) :
    coins.Nonneg := by
  rcases (CCoins.same_iff coins other).mp equal with ⟨pruned, _⟩ | rfl
  · intro txout present unspent
    have spent := List.all_eq_true.mp pruned txout present
    rw [unspent] at spent
    cases spent
  · exact nonneg

/-- Spending an output makes none negative. -/
theorem CCoins.Nonneg.spend
    {coins remaining : CCoins}
    (nonneg : coins.Nonneg)
    (spent : coins.spend n = some (remaining, undo)) :
    remaining.Nonneg := by
  obtain ⟨_, _, _, rfl, _⟩ := CCoins.spend_eq_some spent
  intro txout present unspent
  rcases List.mem_or_eq_of_mem_set (TrimmedList.trim_subset present) with inCoins | rfl
  · exact nonneg txout inCoins unspent
  · cases unspent

/-- Outputs of a transaction that are not negative make coins that are not. -/
theorem CCoins.nonneg_fromTx
    (nonneg : ∀ txout ∈ tx.vout, 0 ≤ txout.nValue)
    (nHeight : Int) :
    (CCoins.fromTx tx nHeight).Nonneg := by
  intro txout present unspent
  have made := TrimmedList.trim_subset present
  simp only [List.mem_map] at made
  obtain ⟨original, inTx, rfl⟩ := made
  split_ifs at unspent ⊢
  · cases unspent
  · exact nonneg original inTx

namespace CCoinsViewCache

theorem Nonneg.spendInputs
    {txins : List CTxIn}
    (valid : view.Valid)
    (nonneg : view.Nonneg)
    (spent : spendInputs txins view = some (undos, final)) :
    final.Nonneg := by
  induction txins generalizing view undos with
  | nil =>
    simp only [CCoinsViewCache.spendInputs, Option.some.injEq, Prod.mk.injEq] at spent
    exact spent.2 ▸ nonneg
  | cons txin rest ih =>
    obtain ⟨undo, next, undosRest, spends, spentRest, _⟩ := spendInputs_cons_eq_some spent
    obtain ⟨remaining, result, answer, others, nextValid⟩ := modifyCoins_spendEdit valid spends
    refine ih nextValid ?_ spentRest
    intro txid
    by_cases same : txid = txin.prevout.hash
    · subst same
      exact ((nonneg _).spend result).of_same answer
    · rw [others txid same]
      exact nonneg txid

/-- Applying a checked transaction leaves no negative outputs. -/
theorem Nonneg.updateCoins
    (valid : view.Valid)
    (nonneg : view.Nonneg)
    (outputs : ∀ txout ∈ tx.vout, 0 ≤ txout.nValue)
    (updated : updateCoins tx view nHeight = some (txundo, final)) :
    final.Nonneg := by
  obtain ⟨spent, spends, rfl⟩ := updateCoins_eq_some updated
  have spentKeeps : spent.Valid ∧ spent.Nonneg := by
    by_cases exempt : tx.spendsNoCoins = true
    · rw [if_pos exempt, Option.some.injEq, Prod.mk.injEq] at spends
      exact spends.2 ▸ ⟨valid, nonneg⟩
    · rw [if_neg exempt] at spends
      exact ⟨(spendInputs_of_valid valid spends).1, nonneg.spendInputs valid spends⟩
  obtain ⟨answer, others, _⟩ := modified_fromTx nHeight spentKeeps.1 outputs
  intro txid
  by_cases same : txid = tx.hash
  · subst same
    exact (CCoins.nonneg_fromTx outputs nHeight).of_same answer
  · rw [others txid same]
    exact spentKeeps.2 txid

/-- The inputs of a transaction have no negative value. -/
theorem Nonneg.getValueIn
    {view : CCoinsViewCache}
    (nonneg : view.Nonneg)
    (found : view.getValueIn tx = some nTxValueIn) :
    0 ≤ nTxValueIn := by
  have total : ∀ (txins : List CTxIn) (start : Int), 0 ≤ start →
      txins.foldlM (fun nResult txin =>
        (view.getOutputFor txin).map fun txout => nResult + txout.nValue) start = some nTxValueIn →
        0 ≤ nTxValueIn := by
    intro txins
    induction txins with
    | nil =>
      intro start atLeast result
      injection result with result
      rw [← result]
      exact atLeast
    | cons txin rest ih =>
      intro start atLeast result
      rw [List.foldlM_cons] at result
      cases output : view.getOutputFor txin with
      | none =>
        rw [output] at result
        cases result
      | some txout =>
        rw [output] at result
        refine ih (start + txout.nValue) ?_ result
        have available : view.haveInput txin = true := by
          unfold getOutputFor at output
          split_ifs at output with available
          exact available
        rw [getOutputFor_of_haveInput available] at output
        rw [haveInput_eq, CCoins.isAvailable, output] at available
        simp only [Bool.and_eq_true, Bool.not_eq_true'] at available
        have value := nonneg _ txout (List.mem_of_getElem? output) available.1
        omega
  exact total tx.vin 0 (Int.le_refl 0) found

/-- A view over one transaction has negative outputs only if that has. -/
theorem nonneg_overSingle
    (nonneg : coins.cleanup.Nonneg)
    (hashBlock : Uint256) :
    (overSingle txid coins hashBlock).Nonneg := by
  intro other
  rcases coinsAt_overSingle txid coins hashBlock other with answer | answer <;> rw [answer]
  · exact nonneg
  · intro txout present
    cases present

end CCoinsViewCache
/-!
## The ranges of the amounts of a block

Each transaction is checked to stay within the money range, but the sums of `ConnectBlock` run
over all transactions of a block, and count a coin again each time it is spent.  They stay in
the range of `int64_t` exactly as long as the inputs counted and the outputs counted do, and
then the fees, which are never compared with a bound, do as well.
-/

/-- The outputs of a transaction are not negative and within the money range. -/
structure CTransaction.OutputsInRange (tx : CTransaction) : Prop where
  nonneg : ∀ txout ∈ tx.vout, 0 ≤ txout.nValue
  money : tx.valueOutSum ≤ 20000000000 * coin

variable {params : CChainParams}

theorem outputs_of_checkOutputs
    (range : nValueOut ≤ params.nMaxMoneyOut)
    (passes : (checkOutputs params lib fZerocoinActive tx outs nValueOut checks).1 = none) :
    (∀ txout ∈ outs, 0 ≤ txout.nValue) ∧
      nValueOut + (outs.map CTxOut.nValue).sum ≤ params.nMaxMoneyOut := by
  induction outs generalizing nValueOut checks with
  | nil => simpa using range
  | cons txout rest ih =>
    rcases checkOutputs_cons params lib fZerocoinActive tx txout rest nValueOut checks with
      ⟨_, rejects, _⟩ | ⟨output, step⟩
    · rw [rejects] at passes
      cases passes
    · rw [step] at passes
      simp only [outputPasses, CChainParams.moneyRange, Bool.and_eq_true, Bool.not_eq_true',
        decide_eq_false_iff_not, decide_eq_true_eq] at output
      generalize mintStage lib fZerocoinActive tx txout checks = outcome at passes
      obtain ⟨exit, next⟩ := outcome
      cases exit with
      | some exit => cases passes
      | none =>
        have others := ih output.2.2 passes
        rw [List.forall_mem_cons, List.map_cons, List.sum_cons, ← Int.add_assoc]
        exact ⟨⟨Int.not_lt.mp output.1.1.2, others.1⟩, others.2⟩

theorem outputsInRange_of_checkBlock
    (network : context.params.IsNetwork)
    (accepted : (checkBlock context node fCheckMerkleRoot block checks).1 = .accept) :
    ∀ tx ∈ block.vtx, tx.OutputsInRange := by
  intro tx inBlock
  obtain ⟨reached, checked⟩ : ∃ reached, (checkTransaction context.params context.lib
      node.fVerifySignature block.fZerocoinActive tx reached).1 = .accept := by
    by_contra refused
    exact @checkBlock_ne_accept_of_refused _ _ _ _ (fun _ => True) _ _ (fun _ _ _ _ => trivial)
      inBlock (fun reached _ accepts => refused ⟨reached, accepts⟩) trivial accepted
  have member : checkOutputs context.params context.lib block.fZerocoinActive tx tx.vout 0 ∈
      checkTransactionStages context.params context.lib node.fVerifySignature
        block.fZerocoinActive tx := by
    simp [checkTransactionStages]
  obtain ⟨before, passes⟩ := passes_of_checkTransaction checked member
  have limit := network.nMaxMoneyOut_eq
  have outputs := outputs_of_checkOutputs (by rw [limit]; decide) passes
  rw [Int.zero_add, limit] at outputs
  exact ⟨outputs.1, outputs.2⟩

/-- The outputs of such a transaction are added up without an overflow. -/
theorem CTransaction.OutputsInRange.getValueOut
    {tx : CTransaction}
    (inRange : tx.OutputsInRange) :
    tx.getValueOut = some tx.valueOutSum := by
  have total : ∀ (outs : List CTxOut) (start : Int),
      (∀ txout ∈ outs, 0 ≤ txout.nValue) →
      start + (outs.map CTxOut.nValue).sum ≤ int64Max →
        outs.foldlM (fun nValueOut txout =>
          if txout.nValue < 0 ∨ int64Max < nValueOut + txout.nValue then none
          else some (nValueOut + txout.nValue)) start =
            some (start + (outs.map CTxOut.nValue).sum) := by
    intro outs
    induction outs with
    | nil => simp
    | cons txout rest ih =>
      intro start nonneg bound
      rw [List.forall_mem_cons] at nonneg
      rw [List.map_cons, List.sum_cons, ← Int.add_assoc] at bound ⊢
      have later : 0 ≤ (rest.map CTxOut.nValue).sum := by
        apply List.sum_nonneg
        intro value present
        obtain ⟨other, member, rfl⟩ := List.mem_map.mp present
        exact nonneg.2 other member
      have fits : ¬(txout.nValue < 0 ∨ int64Max < start + txout.nValue) := by omega
      rw [List.foldlM_cons, if_neg fits]
      exact ih _ nonneg.2 bound
  have small : (0 : Int) + (tx.vout.map CTxOut.nValue).sum ≤ int64Max := by
    have money := inRange.money
    unfold CTransaction.valueOutSum coin at money
    unfold int64Max
    omega
  have sum := total tx.vout 0 inRange.nonneg small
  rw [Int.zero_add] at sum
  exact sum

theorem checkInputValues_total
    (passes : checkInputValues params nSpendHeight view txins nValueIn checks =
      ((none, next), total)) :
    total = nValueIn + (txins.map fun txin => view.outputValue txin.prevout).sum := by
  induction txins generalizing nValueIn with
  | nil =>
    cases passes
    simp
  | cons txin rest ih =>
    rw [checkInputValues] at passes
    cases found : view.accessCoins txin.prevout.hash with
    | none =>
      rw [found] at passes
      cases passes
    | some coins =>
      have answer := CCoinsView.getD_getCoins view.toView txin.prevout.hash
      unfold CCoinsViewCache.accessCoins at found
      rw [found, Option.getD_some] at answer
      rw [CCoinsViewCache.accessCoins, found] at passes
      dsimp only at passes
      split_ifs at passes
      · cases passes
      · cases passes
      · rw [ih passes, List.map_cons, List.sum_cons, Int.add_assoc,
          CCoinsViewCache.outputValue, ← answer]

/-- A transaction that `CheckInputs` lets pass has outputs of no more value than its inputs,
unless it is a coinstake. -/
theorem valueOut_le_of_checkInputs
    (spends : tx.spendsNoCoins = false)
    (notStake : tx.isCoinStake = false)
    (returned : tx.getValueOut = some tx.valueOutSum)
    (passes : (checkInputs params scripts nSpendHeight tx view checks).1.1 = none) :
    tx.valueOutSum ≤ (view.getValueIn tx).getD 0 := by
  unfold checkInputs at passes
  rw [if_neg (by rw [spends]; decide)] at passes
  by_cases missing : view.haveInputs tx = false
  · rw [if_pos missing] at passes
    cases passes
  · rw [if_neg missing] at passes
    rw [CCoinsViewCache.getValueIn_of_haveInputs spends (by simpa using missing), Option.getD_some]
    obtain ⟨⟨⟨exit, summed⟩, total⟩, values⟩ : ∃ outcome,
      checkInputValues params nSpendHeight view tx.vin 0 checks = outcome := ⟨_, rfl⟩
    rw [values] at passes
    cases exit with
    | some exit => cases passes
    | none =>
      have sum := checkInputValues_total values
      unfold checkFee at passes
      rw [notStake, returned] at passes
      rw [Int.zero_add] at sum
      have mapped : (tx.prevouts.map view.outputValue).sum = total := by
        rw [sum, CTransaction.prevouts, List.map_map]
        rfl
      rw [mapped]
      by_contra below
      have less : total < tx.valueOutSum := Int.not_le.mp below
      simp [less] at passes

section Transaction

variable {env : ConnectEnv} {block : CBlock} {tx : CTransaction}

theorem addedFee_nonneg
    (returned : tx.getValueOut = some tx.valueOutSum)
    (passes : connectTransaction env block tx state = (none, next)) :
    0 ≤ addedFee env block tx state := by
  unfold addedFee
  split_ifs with pays
  · simp only [Bool.and_eq_true, countsInputs, paysFee, Bool.not_eq_true'] at pays
    obtain ⟨⟨notCoinBase, -⟩, ⟨notZerocoin, notStake⟩, -⟩ := pays
    have spends : tx.spendsNoCoins = false := by
      rw [CTransaction.spendsNoCoins, notCoinBase, notZerocoin]
      rfl
    obtain ⟨-, reached, nTxValueOut, txundo, view, vtxundo, vPos, nTxOffset, branch, -⟩ :=
      connectTransaction_passes passes
    rw [notZerocoin, notCoinBase] at branch
    obtain ⟨afterInputs, inputs, branch⟩ := Stage.sequence_cons_eq_none branch
    obtain ⟨afterOutPoints, outPoints, branch⟩ := Stage.sequence_cons_eq_none branch
    obtain ⟨afterP2SH, p2sh, branch⟩ := Stage.sequence_cons_eq_none branch
    obtain ⟨afterTests, tests, branch⟩ := Stage.sequence_cons_eq_none branch
    obtain ⟨afterValueIn, valueIn, branch⟩ := Stage.sequence_cons_eq_none branch
    obtain ⟨afterScripts, scripts, branch⟩ := Stage.sequence_cons_eq_none branch
    obtain ⟨rfl, -⟩ := Stage.eq_of_rejectIf inputs
    obtain ⟨rfl, -⟩ := Stage.eq_of_rejectIf outPoints
    obtain ⟨rfl, -⟩ := Stage.eq_of_rejectIf tests
    have before := congrArg Prod.fst (counts_of_addP2SHSigOps p2sh)
    have after := congrArg Prod.fst
      (@counts_of_addValueIn env _ _ _ notZerocoin notCoinBase valueIn)
    have view : afterValueIn.view = state.view := after.trans before
    have checked : (checkInputs env.context.params (env.scriptEnv block afterValueIn.pindex)
        (env.pprev.elim 0 fun prev => prev.nHeight + 1) tx afterValueIn.view
        afterValueIn.checks).1.1 = none := congrArg Prod.fst scripts
    have enough := valueOut_le_of_checkInputs spends notStake returned checked
    rw [view] at enough
    unfold inputValue
    rw [notZerocoin, if_neg (by decide)]
    omega
  · exact Int.le_refl 0

theorem spentZerocoins_nonneg
    (db : CZerocoinDB)
    (nHeight : Int)
    (txins : List CTxIn) :
    0 ≤ spentZerocoins env db nHeight txins := by
  induction txins with
  | nil => exact Int.le_refl 0
  | cons txin rest ih =>
    rw [spentZerocoins]
    cases env.context.lib.txInToZerocoinSpend txin with
    | none => exact Int.le_refl 0
    | some spend =>
      have value : 0 ≤ spend.denomination.toAmount := by
        cases spend.denomination <;> decide
      dsimp only
      split_ifs <;> omega

/-- The records as the loop finds them: a valid view without negative outputs. -/
def ConnectState.Ready (state : ConnectState) : Prop :=
  state.view.Valid ∧ state.view.Nonneg

theorem inputValue_nonneg (ready : state.Ready) : 0 ≤ inputValue env tx state := by
  unfold inputValue
  split_ifs
  · exact spentZerocoins_nonneg _ _ _
  · cases found : state.view.getValueIn tx with
    | none => exact Int.le_refl 0
    | some nTxValueIn => exact ready.2.getValueIn found

theorem addedIn_nonneg (ready : state.Ready) : 0 ≤ addedIn env block tx state := by
  unfold addedIn
  split_ifs
  · exact inputValue_nonneg ready
  · exact Int.le_refl 0

theorem CTransaction.OutputsInRange.valueOutSum_nonneg (outputs : tx.OutputsInRange) :
    0 ≤ tx.valueOutSum := by
  apply List.sum_nonneg
  intro value present
  obtain ⟨txout, member, rfl⟩ := List.mem_map.mp present
  exact outputs.nonneg txout member

theorem addedOut_nonneg (outputs : tx.OutputsInRange) : 0 ≤ addedOut env block tx state := by
  unfold addedOut
  split_ifs
  · exact outputs.valueOutSum_nonneg
  · exact Int.le_refl 0

/-- A fee is at most what the inputs add. -/
theorem addedFee_le_addedIn
    (outputs : tx.OutputsInRange)
    (ready : state.Ready) :
    addedFee env block tx state ≤ addedIn env block tx state := by
  have value := @inputValue_nonneg env tx state ready
  have out := outputs.valueOutSum_nonneg
  unfold addedFee addedIn
  cases countsInputs env block tx state with
  | false => simp
  | true =>
    rw [if_pos rfl]
    split_ifs
    · omega
    · exact value

theorem neg_money_le_addedFee
    (outputs : tx.OutputsInRange)
    (ready : state.Ready) :
    -(20000000000 * coin) ≤ addedFee env block tx state := by
  have value := @inputValue_nonneg env tx state ready
  have money := outputs.money
  unfold addedFee
  split_ifs
  · omega
  · decide

/-- A transaction that passes leaves a view that is valid and without negative outputs. -/
theorem ready_connectTransaction
    (outputs : tx.OutputsInRange)
    (ready : state.Ready)
    (passes : connectTransaction env block tx state = (none, next)) :
    next.Ready := by
  obtain ⟨txundo, updated⟩ := (transactionConnected passes).coins
  exact ⟨CCoinsViewCache.updateCoins_of_valid ready.1 outputs.nonneg updated,
    ready.2.updateCoins ready.1 outputs.nonneg updated⟩

end Transaction

/-! ## The whole loop -/

/-- A number in the range of `int64_t`. -/
def InInt64 (value : Int) : Prop :=
  -2 ^ 63 ≤ value ∧ value ≤ int64Max

/-- The sums of `ConnectBlock` are in range. -/
structure ConnectState.AmountsInRange (state : ConnectState) : Prop where
  nValueIn : InInt64 state.nValueIn
  nValueOut : InInt64 state.nValueOut
  nFees : InInt64 state.nFees

section Loop

variable (env : ConnectEnv) (block : CBlock)

/-- The value of the inputs of the transactions that the loop comes to. -/
def totalIn (txs : List CTransaction) (state : ConnectState) : Int :=
  Stage.total (connectTransaction env block) (addedIn env block) txs state

/-- The value of their outputs. -/
def totalOut (txs : List CTransaction) (state : ConnectState) : Int :=
  Stage.total (connectTransaction env block) (addedOut env block) txs state

/-- Their fees. -/
def totalFees (txs : List CTransaction) (state : ConnectState) : Int :=
  Stage.total (connectTransaction env block) (addedFee env block) txs state

variable {env block}

/-- The sums at the end of the loop, or where it stops. -/
theorem amounts_forEach
    (outputs : ∀ tx ∈ txs, tx.OutputsInRange)
    (state : ConnectState) :
    (Stage.forEach (connectTransaction env block) txs state).2.amounts =
      (state.nValueIn + totalIn env block txs state, state.nValueOut + totalOut env block txs state,
        state.nFees + totalFees env block txs state) := by
  have adds : ∀ tx ∈ txs, ∀ before, _ := fun tx member before =>
    @amounts_connectTransaction env block tx (outputs tx member).getValueOut before
  simp only [ConnectState.amounts, Prod.mk.injEq] at adds ⊢
  refine ⟨?_, ?_, ?_⟩
  · exact Stage.measure_forEach (fun tx member before => (adds tx member before).1) state
  · exact Stage.measure_forEach (fun tx member before => (adds tx member before).2.1) state
  · exact Stage.measure_forEach (fun tx member before => (adds tx member before).2.2) state

/-- The transactions that the loop comes to find a view without negative outputs. -/
theorem ready_of_reached
    (outputs : ∀ tx ∈ txs, tx.OutputsInRange)
    (ready : state.Ready) :
    ∀ entry ∈ Stage.reached (connectTransaction env block) txs state,
      entry.1 ∈ txs ∧ entry.2.Ready := by
  apply Stage.holds_of_reached _ ready
  intro tx member before after holds passes
  exact ready_connectTransaction (outputs tx member) holds passes

/-- More transactions have inputs of no less value. -/
theorem totalIn_mono
    {done : List CTransaction}
    (outputs : ∀ tx ∈ txs, tx.OutputsInRange)
    (ready : state.Ready)
    (first : done <+: txs) :
    totalIn env block done state ≤ totalIn env block txs state := by
  obtain ⟨rest, rfl⟩ := first
  apply Stage.total_le_total_append
  intro entry present
  exact addedIn_nonneg (ready_of_reached outputs ready entry present).2

/-- More transactions have outputs of no less value. -/
theorem totalOut_mono
    {done : List CTransaction}
    (outputs : ∀ tx ∈ txs, tx.OutputsInRange)
    (ready : state.Ready)
    (first : done <+: txs) :
    totalOut env block done state ≤ totalOut env block txs state := by
  obtain ⟨rest, rfl⟩ := first
  apply Stage.total_le_total_append
  intro entry present
  exact addedOut_nonneg (outputs _ (ready_of_reached outputs ready entry present).1)

/-- The fees are at most the value of the inputs, and negative only by the one transaction that
the loop stops at. -/
theorem totalFees_bounds
    (outputs : ∀ tx ∈ txs, tx.OutputsInRange)
    (ready : state.Ready) :
    -(20000000000 * coin) ≤ totalFees env block txs state ∧
      totalFees env block txs state ≤ totalIn env block txs state := by
  induction txs generalizing state with
  | nil => exact ⟨(by decide : -(20000000000 * coin) ≤ (0 : Int)), Int.le_refl 0⟩
  | cons tx rest ih =>
    have inRange := outputs tx List.mem_cons_self
    have atMost := @addedFee_le_addedIn env block tx state inRange ready
    have atLeast := @neg_money_le_addedFee env block tx state inRange ready
    unfold totalFees totalIn at ih ⊢
    rw [Stage.total_cons, Stage.total_cons]
    cases outcome : connectTransaction env block tx state with
    | mk exit next =>
      cases exit with
      | some exit =>
        dsimp only
        omega
      | none =>
        have others := ih
          (fun other member => outputs other (List.mem_cons_of_mem _ member))
          (ready_connectTransaction inRange ready outcome)
        have fee := addedFee_nonneg inRange.getValueOut outcome
        dsimp only
        omega

/-- The sums stay in range all through the loop exactly if the inputs and the outputs of the
transactions that it comes to do not exceed the range. -/
theorem amountsInRange_iff
    (outputs : ∀ tx ∈ txs, tx.OutputsInRange)
    (ready : state.Ready)
    (zero : state.amounts = (0, 0, 0)) :
    (∀ done, done <+: txs →
        (Stage.forEach (connectTransaction env block) done state).2.AmountsInRange) ↔
      totalIn env block txs state ≤ int64Max ∧ totalOut env block txs state ≤ int64Max := by
  simp only [ConnectState.amounts, Prod.mk.injEq] at zero
  have sums : ∀ done, done <+: txs →
      (Stage.forEach (connectTransaction env block) done state).2.amounts =
        (totalIn env block done state, totalOut env block done state,
          totalFees env block done state) := by
    intro done first
    rw [amounts_forEach (fun tx member => outputs tx (first.subset member)), zero.1, zero.2.1,
      zero.2.2, Int.zero_add, Int.zero_add, Int.zero_add]
  simp only [ConnectState.amounts, Prod.mk.injEq] at sums
  constructor
  · intro inRange
    have last := inRange txs (List.prefix_refl txs)
    obtain ⟨valueIn, valueOut, -⟩ := sums txs (List.prefix_refl txs)
    rw [← valueIn, ← valueOut]
    exact ⟨last.nValueIn.2, last.nValueOut.2⟩
  · rintro ⟨boundIn, boundOut⟩ done first
    have outputs_done : ∀ tx ∈ done, tx.OutputsInRange :=
      fun tx member => outputs tx (first.subset member)
    obtain ⟨valueIn, valueOut, fees⟩ := sums done first
    have leastOut : 0 ≤ totalOut env block done state :=
      @totalOut_mono env block done state [] outputs_done ready List.nil_prefix
    have mostIn := @totalIn_mono env block txs state done outputs ready first
    have mostOut := @totalOut_mono env block txs state done outputs ready first
    have between := @totalFees_bounds env block done state outputs_done ready
    unfold int64Max at boundIn boundOut
    unfold coin at between
    constructor <;> unfold InInt64 int64Max
    · omega
    · omega
    · omega

theorem totalFees_nonneg
    {final : ConnectState}
    (outputs : ∀ tx ∈ txs, tx.OutputsInRange)
    (passes : Stage.forEach (connectTransaction env block) txs state = (none, final)) :
    0 ≤ totalFees env block txs state := by
  induction txs generalizing state with
  | nil => exact Int.le_refl 0
  | cons tx rest ih =>
    unfold totalFees at ih ⊢
    rw [Stage.total_cons]
    obtain ⟨next, outcome, passes⟩ := Stage.forEach_cons_eq_none passes
    rw [outcome]
    have fee := addedFee_nonneg (outputs tx List.mem_cons_self).getValueOut outcome
    have others := ih (fun other member => outputs other (List.mem_cons_of_mem _ member)) passes
    dsimp only
    omega

end Loop

/-- What `IsBlockValueValid` compares the amount minted with. -/
def valueLimit (params : CChainParams) (masternodes : MasternodeLocal) (node : NodeLocal)
    (nHeight nExpectedValue : Int) (ancestors : List CBlockIndex) : Int :=
  if params.getChainHeight .h9 ≤ nHeight then
    if isCycleStart params nHeight then
      nExpectedValue + getTotalBudget params nHeight + getTotalDevFund params nHeight +
        if createsExtraCoin params nHeight then extraCoinAmount else 0
    else nExpectedValue
  else if params.getChainHeight .h8 ≤ nHeight then
    if isCycleStart params nHeight then nExpectedValue + getTotalBudget params nHeight
    else nExpectedValue
  else if !masternodes.isSynced || node.isInitialBlockDownload then
    if nHeight.tmod (getBudgetPaymentCycleBlocks params) < params.nMaxSuperBlocksPerCycle then
      nExpectedValue + getTotalBudget params nHeight
    else nExpectedValue
  else if isBudgetPaymentBlock params masternodes
      (node.isSporkActive .enableSuperblocks) nHeight then
    nExpectedValue + getBudgetValue params masternodes nHeight ancestors
  else nExpectedValue

section Reward

variable (env : ConnectEnv)

/-- The money supply of the parent block. -/
def supplyBefore : Int :=
  env.pprev.elim 0 CBlockIndex.nMoneySupply

/-- The limit that the amount minted is compared with, for fees and a height. -/
def rewardLimit (nFees nHeight : Int) : Int :=
  valueLimit env.context.params env.masternodes env.node nHeight
    (nFees + getBlockExpectedMint env.context.params nHeight) env.ancestors

/-- All that is computed for the comparison of the reward is in range. -/
structure RewardInRange (connected : ConnectState) : Prop where
  outputs : InInt64 (supplyBefore env + connected.nValueOut)
  nMoneySupply : InInt64 (trackMoneySupply env connected).pindex.nMoneySupply
  difference : InInt64 ((trackMoneySupply env connected).pindex.nMoneySupply - supplyBefore env)
  nMint : InInt64 (trackMoneySupply env connected).pindex.nMint
  nExpectedMint : InInt64
    (connected.nFees + getBlockExpectedMint env.context.params connected.pindex.nHeight)
  limit : InInt64 (rewardLimit env connected.nFees connected.pindex.nHeight)

variable (block : CBlock) (state : ConnectState)

/-- The totals over the transactions that the loop comes to fit: those of the inputs and of the
outputs, and, if all transactions pass, what is added to them for the reward. -/
structure TotalsFit : Prop where
  inputs : totalIn env block block.vtx state ≤ int64Max
  outputs : totalOut env block block.vtx state ≤ int64Max
  supply : (connectTransactions env block state).1 = none →
    InInt64 (supplyBefore env + totalOut env block block.vtx state) ∧
      InInt64 (supplyBefore env + totalOut env block block.vtx state -
        totalIn env block block.vtx state)
  limit : (connectTransactions env block state).1 = none →
    InInt64 (totalFees env block block.vtx state +
        getBlockExpectedMint env.context.params state.pindex.nHeight) ∧
      InInt64 (rewardLimit env (totalFees env block block.vtx state) state.pindex.nHeight)

end Reward

/-- For every block that `CheckBlock` accepts, every view without negative outputs and all else
that a node has: the sums of `ConnectBlock` stay in the range of `int64_t` all through its loop,
also where it stops, and so does what it computes from them for the reward, if and only if the
totals of the transactions that the loop comes to fit. -/
theorem connectBlock_sums_inRange_iff
    {env : ConnectEnv} {block : CBlock} {fCheckMerkleRoot : Bool} {checks : CheckState}
    {state : ConnectState}
    (network : env.context.params.IsNetwork)
    (accepted : (checkBlock env.context env.node fCheckMerkleRoot block checks).1 = .accept)
    (valid : state.view.Valid)
    (nonneg : state.view.Nonneg)
    (zero : state.amounts = (0, 0, 0)) :
    ((∀ done, done <+: block.vtx →
        (Stage.forEach (connectTransaction env block) done state).2.AmountsInRange) ∧
      ∀ connected, connectTransactions env block state = (none, connected) →
        RewardInRange env connected) ↔
      TotalsFit env block state := by
  have outputs := outputsInRange_of_checkBlock network accepted
  have ready : state.Ready := ⟨valid, nonneg⟩
  have sums := @amountsInRange_iff env block block.vtx state outputs ready zero
  -- The amounts of a loop that passes are the totals.
  have totals : ∀ connected, connectTransactions env block state = (none, connected) →
      connected.nValueIn = totalIn env block block.vtx state ∧
        connected.nValueOut = totalOut env block block.vtx state ∧
        connected.nFees = totalFees env block block.vtx state ∧
        connected.pindex = state.pindex := by
    intro connected passes
    have amounts := @amounts_forEach env block block.vtx outputs state
    unfold connectTransactions at passes
    simp only [ConnectState.amounts, Prod.mk.injEq] at zero
    rw [passes, zero.1, zero.2.1, zero.2.2, Int.zero_add, Int.zero_add, Int.zero_add] at amounts
    simp only [ConnectState.amounts, Prod.mk.injEq] at amounts
    exact ⟨amounts.1, amounts.2.1, amounts.2.2, (loopConnected passes).entry⟩
  constructor
  · rintro ⟨inRange, reward⟩
    obtain ⟨boundIn, boundOut⟩ := sums.mp inRange
    have rewarded : (connectTransactions env block state).1 = none → ∃ connected,
        connectTransactions env block state = (none, connected) ∧
          RewardInRange env connected := by
      intro passes
      exact ⟨_, Prod.ext passes rfl, reward _ (Prod.ext passes rfl)⟩
    refine ⟨boundIn, boundOut, ?_, ?_⟩
    · intro passes
      obtain ⟨connected, loop, inReward⟩ := rewarded passes
      obtain ⟨valueIn, valueOut, -, -⟩ := totals connected loop
      rw [← valueIn, ← valueOut]
      exact ⟨inReward.outputs, inReward.nMoneySupply⟩
    · intro passes
      obtain ⟨connected, loop, inReward⟩ := rewarded passes
      obtain ⟨-, -, fees, entry⟩ := totals connected loop
      rw [← fees, ← entry]
      exact ⟨inReward.nExpectedMint, inReward.limit⟩
  · intro fit
    refine ⟨sums.mpr ⟨fit.inputs, fit.outputs⟩, ?_⟩
    intro connected loop
    have passes : (connectTransactions env block state).1 = none := congrArg Prod.fst loop
    obtain ⟨valueIn, valueOut, fees, entry⟩ := totals connected loop
    obtain ⟨supplyOut, supply⟩ := fit.supply passes
    obtain ⟨expected, limit⟩ := fit.limit passes
    have feesLeast := @totalFees_nonneg env block block.vtx state connected outputs loop
    have feesMost := (@totalFees_bounds env block block.vtx state outputs ready).2
    have leastIn : 0 ≤ totalIn env block block.vtx state :=
      @totalIn_mono env block block.vtx state [] outputs ready List.nil_prefix
    have leastOut : 0 ≤ totalOut env block block.vtx state :=
      @totalOut_mono env block block.vtx state [] outputs ready List.nil_prefix
    have mostIn := fit.inputs
    have mostOut := fit.outputs
    rw [← valueIn, ← valueOut] at supply
    rw [← valueOut] at supplyOut
    rw [← fees, ← entry] at expected limit
    rw [← fees] at feesLeast feesMost
    rw [← valueIn] at feesMost leastIn mostIn
    rw [← valueOut] at leastOut mostOut
    refine ⟨supplyOut, supply, ?_, ?_, expected, limit⟩
    all_goals
      simp only [trackMoneySupply, supplyBefore, InInt64, int64Max] at mostIn mostOut ⊢
      omega

/-- A view with one output of the largest value in the money range. -/
def largeCoinView : CCoinsViewCache :=
  .overSingle 3
    { fCoinBase := false
      fCoinStake := false
      vout := [{ nValue := 20000000000 * coin, scriptPubKey := [0x51] }]
      nHeight := 1
      nVersion := 1 } 1

/-- A transaction that spends such an output of another one, and makes the same. -/
def passOn (previous hash : Uint256) : CTransaction where
  hash := hash
  nVersion := 1
  vin := [{ prevout := ⟨previous, 0⟩, scriptSig := [], nSequence := 0 }]
  vout := [{ nValue := 20000000000 * coin, scriptPubKey := [0x51] }]
  nLockTime := 0

/-- The block of a coinbase and transactions that pass the output on, one to the next. -/
def passOnBlock (hashes : List Uint256) : CBlock :=
  { bareBlock 5 with
    vtx := bareCoinBase :: List.zipWith passOn (3 :: hashes) hashes }

/-- An environment where all scripts verify. -/
def verifyingEnv : ConnectEnv :=
  { bareEnv with verifyScript := fun _ _ _ _ => none }

/-- The loop over such a block at its start. -/
def passOnStart (hashes : List Uint256) : ConnectState :=
  ConnectState.start verifyingEnv (passOnBlock hashes)
    { twoOutputsWorld (passOnBlock hashes) with view := largeCoinView }

theorem valid_largeCoinView : largeCoinView.Valid :=
  CCoinsViewCache.valid_overSingle ⟨by decide, by decide⟩ 1

theorem nonneg_largeCoinView : largeCoinView.Nonneg := by
  apply CCoinsViewCache.nonneg_overSingle
  intro txout present _
  have member := TrimmedList.trim_subset present
  rw [List.mem_singleton] at member
  rw [member]
  decide

/-- A coin passed on twice keeps all sums in range. -/
theorem connectBlock_sums_inRange_iff_twice :
    (connectTransactions verifyingEnv (passOnBlock [11, 12]) (passOnStart [11, 12])).1 = none ∧
      ∀ done, done <+: (passOnBlock [11, 12]).vtx →
        (Stage.forEach (connectTransaction verifyingEnv (passOnBlock [11, 12])) done
          (passOnStart [11, 12])).2.AmountsInRange := by
  refine ⟨by decide, ?_⟩
  exact ((@connectBlock_sums_inRange_iff verifyingEnv (passOnBlock [11, 12]) true bareChecks
    (passOnStart [11, 12]) (Or.inl rfl) (by decide) valid_largeCoinView nonneg_largeCoinView
    rfl).mpr
      { inputs := by decide
        outputs := by decide
        supply := fun _ => ⟨⟨by decide, by decide⟩, by decide, by decide⟩
        limit := fun _ => ⟨⟨by decide, by decide⟩, by decide, by decide⟩ }).1

/-- A block that `CheckBlock` accepts passes one coin on five times: all its transactions pass,
and the sums of inputs and outputs leave the range. -/
theorem coin_passed_on_five_times :
    let block := passOnBlock [11, 12, 13, 14, 15]
    let outcome := connectTransactions verifyingEnv block (passOnStart [11, 12, 13, 14, 15])
    (checkBlock verifyingEnv.context verifyingEnv.node true block bareChecks).1 = .accept ∧
      (passOnStart [11, 12, 13, 14, 15]).view.Valid ∧
      (passOnStart [11, 12, 13, 14, 15]).view.Nonneg ∧
      outcome.1 = none ∧
      ¬outcome.2.AmountsInRange ∧
      int64Max < outcome.2.nValueIn ∧
      int64Max < outcome.2.nValueOut := by
  refine ⟨by decide, valid_largeCoinView, nonneg_largeCoinView, by decide, ?_, by decide,
    by decide⟩
  intro inRange
  exact absurd inRange.nValueOut.2 (by decide)

end ColossusCoin
