import ColossusCoin.Mempool.Consistency
import ColossusCoin.Validation.ConnectFrame
import ColossusCoin.Validation.MintRecords

/-!
# What the relay of transactions records

`CheckTransaction` records the mints of a transaction under its hash, also when the
transaction is rejected.  The calls that check transactions, with the database and the
memory pool that they leave, are the steps of a system; over a run, each mint that is
recorded anew is one of a transaction that was checked.
-/

namespace ColossusCoin

/-- The transaction has an output that mints the value. -/
def CTransaction.MintsValue (tx : CTransaction) (value : CBigNum) : Prop :=
  ∃ txout ∈ tx.vout, txout.isZerocoinMint = true ∧
    ∃ pubCoin, txOutToPublicCoin txout = some pubCoin ∧ pubCoin.value = value

/-- What checks of transactions leave: mints that are recorded with their minters, and
nothing else. -/
structure CheckState.RecordsMints (minted : Uint256 → CBigNum → Prop)
    (before after : CheckState) : Prop where
  keeps : before.KeepsMints after
  recorded : ∀ value txHash, before.zerocoinDB.mints value = none →
    after.zerocoinDB.mints value = some txHash → minted txHash value
  rejectedBlocks : after.mapRejectedBlocks = before.mapRejectedBlocks

section Records

instance : IsPreorder CheckState (CheckState.RecordsMints minted) where
  refl checks :=
    { keeps := refl checks
      recorded := by
        intro value txHash absent found
        rw [absent] at found
        cases found
      rejectedBlocks := rfl }
  trans before middle after first second :=
    { keeps := IsTrans.trans before middle after first.keeps second.keeps
      recorded := by
        intro value txHash absent found
        cases held : middle.zerocoinDB.mints value with
        | none => exact second.recorded value txHash held found
        | some earlier =>
          have kept := second.keeps.mints value earlier held
          rw [found] at kept
          cases kept
          exact first.recorded value txHash absent held
      rejectedBlocks := second.rejectedBlocks.trans first.rejectedBlocks }

theorem CheckState.RecordsMints.mono
    {before after : CheckState}
    (records : before.RecordsMints minted after)
    (included : ∀ txHash value, minted txHash value → other txHash value) :
    before.RecordsMints other after :=
  ⟨records.keeps,
    fun value txHash absent found =>
      included txHash value (records.recorded value txHash absent found),
    records.rejectedBlocks⟩

theorem recordsMints_of_outsideState
    {before after : CheckState}
    (same : after.outsideState = before.outsideState) :
    before.RecordsMints minted after := by
  obtain ⟨database, rejectedBlocks⟩ := Prod.mk.inj same
  refine ⟨keepsMints_of_eq database, ?_, rejectedBlocks⟩
  intro value txHash absent found
  rw [database, absent] at found
  cases found

theorem recordsMints_checkZerocoinMint
    (lib : ZerocoinLib)
    (mints : ∀ pubCoin, txOutToPublicCoin txout = some pubCoin → minted txHash pubCoin.value)
    (checks : CheckState) :
    checks.RecordsMints minted (checkZerocoinMint lib txHash txout checks).2 := by
  refine ⟨keepsMints_checkZerocoinMint lib txHash txout checks, ?_, ?_⟩
  · intro value found absent recorded
    unfold checkZerocoinMint at recorded
    cases read : txOutToPublicCoin txout with
    | none =>
      rw [read] at recorded
      exact absurd (absent.symm.trans recorded) (by simp)
    | some pubCoin =>
      rw [read] at recorded
      dsimp only at recorded
      split_ifs at recorded
      · exact absurd (absent.symm.trans recorded) (by simp)
      · unfold CZerocoinDB.recordMintToDB at recorded
        cases held : checks.zerocoinDB.mints pubCoin.value with
        | some hashFromDB =>
          rw [held] at recorded
          dsimp only at recorded
          cases same : hashFromDB == txHash with
          | true =>
            rw [same] at recorded
            exact absurd (absent.symm.trans recorded) (by simp)
          | false =>
            rw [same] at recorded
            exact absurd (absent.symm.trans recorded) (by simp)
        | none =>
          rw [held] at recorded
          change Function.update checks.zerocoinDB.mints pubCoin.value (some txHash)
            value = some found at recorded
          by_cases here : value = pubCoin.value
          · subst here
            rw [Function.update_self] at recorded
            cases recorded
            exact mints pubCoin read
          · rw [Function.update_of_ne here, absent] at recorded
            cases recorded
  · unfold checkZerocoinMint
    cases txOutToPublicCoin txout with
    | none => rfl
    | some pubCoin =>
      dsimp only
      split_ifs
      · rfl
      · generalize checks.zerocoinDB.recordMintToDB pubCoin txHash = outcome
        obtain ⟨recorded, db⟩ := outcome
        cases recorded <;> rfl

theorem recordsMints_checkOutputs
    (params : CChainParams) (lib : ZerocoinLib) (fZerocoinActive : Bool)
    (mints : ∀ txout ∈ outs, txout.isZerocoinMint = true →
      ∀ pubCoin, txOutToPublicCoin txout = some pubCoin → minted tx.hash pubCoin.value)
    (nValueOut : Int) :
    Stage.Relates (CheckState.RecordsMints minted)
      (checkOutputs params lib fZerocoinActive tx outs nValueOut) := by
  induction outs generalizing nValueOut with
  | nil =>
    intro checks
    exact refl checks
  | cons txout rest ih =>
    have mintRecords : Stage.Relates (CheckState.RecordsMints minted)
        (mintStage lib fZerocoinActive tx txout) := by
      unfold mintStage
      cases mintsHere : fZerocoinActive && txout.isZerocoinMint with
      | false =>
        intro checks
        exact refl checks
      | true =>
        rw [Bool.and_eq_true] at mintsHere
        apply Stage.relates_when
        apply Stage.relates_require
        · exact recordsMints_checkZerocoinMint lib (mints txout List.mem_cons_self mintsHere.2)
        · exact fun _ => recordsMints_of_outsideState rfl
    have restRecords := ih
      fun other member => mints other (List.mem_cons_of_mem _ member)
    intro checks
    have minted := mintRecords checks
    rw [checkOutputs]
    split_ifs
    · exact recordsMints_of_outsideState rfl
    · exact recordsMints_of_outsideState rfl
    · exact recordsMints_of_outsideState rfl
    · exact recordsMints_of_outsideState rfl
    · unfold mintStage at minted
      dsimp only
      generalize Stage.when (fZerocoinActive && txout.isZerocoinMint)
        (Stage.require (checkZerocoinMint lib tx.hash txout) (CheckState.dos 100 0 ""))
          checks = outcome at minted ⊢
      obtain ⟨exit, next⟩ := outcome
      cases exit with
      | some exit => exact minted
      | none => exact IsTrans.trans _ _ _ minted (restRecords _ next)

theorem recordsMints_checkTransaction
    (params : CChainParams) (lib : ZerocoinLib) (fVerifySignature fZerocoinActive : Bool)
    (tx : CTransaction) (checks : CheckState) :
    checks.RecordsMints (fun txHash value => tx.hash = txHash ∧ tx.MintsValue value)
      (checkTransaction params lib fVerifySignature fZerocoinActive tx checks).2 := by
  refine Stage.relates_sequence ?_ checks
  intro stage member
  simp only [checkTransactionStages, List.mem_cons, List.not_mem_nil, or_false] at member
  rcases member with rfl | rfl | rfl | rfl | rfl | rfl | rfl | rfl | rfl
  · exact Stage.relates_rejectIf _ fun _ => recordsMints_of_outsideState rfl
  · exact Stage.relates_rejectIf _ fun _ => recordsMints_of_outsideState rfl
  · exact Stage.relates_rejectIf _ fun _ => recordsMints_of_outsideState rfl
  · apply recordsMints_checkOutputs
    intro txout output mint pubCoin read
    exact ⟨rfl, txout, output, mint, pubCoin, read, rfl⟩
  · exact Stage.relates_rejectIf _ fun _ => recordsMints_of_outsideState rfl
  · exact Stage.relates_rejectIf _ fun _ => recordsMints_of_outsideState rfl
  · apply Stage.relates_when
    apply Stage.relates_require
    · intro checks
      exact recordsMints_of_outsideState
        (outsideState_checkZerocoinSpend lib fVerifySignature tx checks)
    · exact fun _ => recordsMints_of_outsideState rfl
  · exact Stage.relates_rejectIf _ fun _ => recordsMints_of_outsideState rfl
  · intro checks
    split <;> exact recordsMints_of_outsideState rfl

end Records

/-- The records of an admission, but for the validation state. -/
def AdmissionState.outsideState (state : AdmissionState) :
    CZerocoinDB × (Uint256 → Option Int) :=
  state.checks.outsideState

/-- The checks of an admission leave records of mints. -/
def AdmissionState.RecordsMints (minted : Uint256 → CBigNum → Prop)
    (before after : AdmissionState) : Prop :=
  before.checks.RecordsMints minted after.checks

instance {minted : Uint256 → CBigNum → Prop} :
    IsPreorder AdmissionState (AdmissionState.RecordsMints minted) where
  refl state := refl state.checks
  trans before middle after first second :=
    IsTrans.trans before.checks middle.checks after.checks first second

section Admission

variable (env : MempoolEnv) (pool : CTxMemPool) (tx : CTransaction)

theorem frame_admissionSpendStages :
    Stage.Frame AdmissionState.outsideState
      (Stage.sequence (admissionSpendStages env pool tx)) := by
  apply Stage.frame_sequence
  intro stage member
  simp only [admissionSpendStages, List.mem_cons, List.not_mem_nil, or_false] at member
  rcases member with rfl | rfl | rfl
  · intro state
    unfold addZerocoinSpent
    split <;> rfl
  · exact Stage.frame_rejectIf _ fun _ => rfl
  · apply Stage.frame_forEach
    intro txin _ state
    unfold admissionCoinSpend
    cases env.connect.context.lib.txInToZerocoinSpend txin with
    | none => rfl
    | some spend =>
      dsimp only
      split_ifs <;> rfl

theorem frame_admissionCoinStages :
    Stage.Frame AdmissionState.outsideState (Stage.sequence (admissionCoinStages env pool tx)) := by
  apply Stage.frame_sequence
  intro stage member
  simp only [admissionCoinStages, List.mem_cons, List.not_mem_nil, or_false] at member
  rcases member with rfl | rfl | rfl | rfl
  · exact Stage.frame_rejectIf _ fun _ => rfl
  · apply Stage.frame_forEach
    intro txin _
    apply Stage.frame_sequence
    intro stage member
    rw [List.mem_cons, List.mem_singleton] at member
    rcases member with rfl | rfl
    · exact Stage.frame_rejectIf _ fun _ => rfl
    · exact Stage.frame_rejectIf _ fun _ => rfl
  · exact Stage.frame_rejectIf _ fun _ => rfl
  · intro state
    unfold admissionValueIn
    split <;> rfl

theorem frame_admissionFee : Stage.Frame AdmissionState.outsideState (admissionFee env tx) := by
  intro state
  unfold admissionFee
  cases tx.getValueOut with
  | none => rfl
  | some nValueOut =>
    dsimp only
    cases env.feePolicy tx (state.nValueIn - nValueOut) <;> dsimp only <;> split_ifs <;> rfl

theorem frame_admissionCheckInputs (standard : Bool) :
    Stage.Frame AdmissionState.outsideState (admissionCheckInputs env pool tx standard) := by
  intro state
  have same := (@endsAtInputs_checkInputs env.connect.context.params (env.scriptEnv standard)
    (memPoolView env.store pool tx) tx state.checks (env.chainHeight + 1)).outsideState
  exact same

/-- `AcceptToMemoryPool` records what `CheckTransaction` does. -/
theorem recordsMints_admissionStages :
    ∀ stage ∈ admissionStages env pool tx,
      Stage.Relates (AdmissionState.RecordsMints fun txHash value =>
        tx.hash = txHash ∧ tx.MintsValue value) stage := by
  have framed : ∀ {stage : Stage AdmissionState},
      Stage.Frame AdmissionState.outsideState stage →
        Stage.Relates (AdmissionState.RecordsMints fun txHash value =>
          tx.hash = txHash ∧ tx.MintsValue value) stage :=
    fun frame state => recordsMints_of_outsideState (frame state)
  intro stage member
  simp only [admissionStages, List.mem_cons, List.not_mem_nil, or_false] at member
  rcases member with rfl | rfl | rfl | rfl | rfl | rfl | rfl | rfl | rfl | rfl | rfl | rfl |
    rfl | rfl | rfl
  · exact framed (Stage.frame_rejectIf _ fun _ => rfl)
  · apply Stage.relates_require
    · intro state
      exact recordsMints_checkTransaction _ _ _ _ tx state.checks
    · exact fun state => recordsMints_of_outsideState rfl
  · exact framed (Stage.frame_rejectIf _ fun _ => rfl)
  · exact framed (Stage.frame_rejectIf _ fun _ => rfl)
  · apply framed
    intro state
    unfold requireStandardTx
    split <;> rfl
  · exact framed (Stage.frame_rejectIf _ fun _ => rfl)
  · exact framed (Stage.frame_rejectIf _ fun _ => rfl)
  · exact framed (Stage.frame_rejectIf _ fun _ => rfl)
  · exact framed (Stage.frame_rejectIf _ fun _ => rfl)
  · apply framed
    split_ifs
    · exact frame_admissionSpendStages env pool tx
    · exact frame_admissionCoinStages env pool tx
  · exact framed (Stage.frame_rejectIf _ fun _ => rfl)
  · apply framed
    apply Stage.frame_when
    intro state
    unfold admissionSigOps
    cases (memPoolView env.store pool tx).getP2SHSigOpCount tx with
    | none => rfl
    | some nP2SH =>
      dsimp only
      split_ifs <;> rfl
  · exact framed (frame_admissionFee env tx)
  · exact framed (frame_admissionCheckInputs env pool tx true)
  · exact framed (frame_admissionCheckInputs env pool tx false)

end Admission

/-- A call that checks a transaction. -/
inductive TxCall where
  | checkTransaction (params : CChainParams) (lib : ZerocoinLib)
      (fVerifySignature fZerocoinActive : Bool) (tx : CTransaction)
  | acceptToMemoryPool (env : MempoolEnv) (tx : CTransaction) (nTime : Int)

/-- What the calls read and write. -/
structure RelayState where
  zerocoinDB : CZerocoinDB
  mapRejectedBlocks : Uint256 → Option Int
  mempool : CTxMemPool

namespace RelayState

/-- The records for a check that starts with a validation state. -/
def checks (node : RelayState) (state : CValidationState) : CheckState where
  state := state
  zerocoinDB := node.zerocoinDB
  mapRejectedBlocks := node.mapRejectedBlocks

/-- The node after a check of a transaction. -/
def afterChecks (node : RelayState) (checks : CheckState) : RelayState :=
  { node with
    zerocoinDB := checks.zerocoinDB
    mapRejectedBlocks := checks.mapRejectedBlocks }

end RelayState

namespace TxCall

/-- The transaction that is checked. -/
def tx : TxCall → CTransaction
  | .checkTransaction _ _ _ _ tx => tx
  | .acceptToMemoryPool _ tx _ => tx

/-- How the call ends, and the node that it leaves. -/
def apply : TxCall → RelayState → Exit × RelayState
  | .checkTransaction params lib fVerifySignature fZerocoinActive tx, node =>
    let outcome := ColossusCoin.checkTransaction params lib fVerifySignature
      fZerocoinActive tx (node.checks .initial)
    (outcome.1, node.afterChecks outcome.2)
  | .acceptToMemoryPool env tx nTime, node =>
    let (outcome, mempool) := ColossusCoin.acceptToMemoryPool env node.mempool tx nTime
      (node.checks .initial)
    (outcome.1, { node.afterChecks outcome.2.checks with mempool := mempool })

theorem recordsMints_apply (call : TxCall) (node : RelayState) (state : CValidationState) :
    (node.checks state).RecordsMints
      (fun txHash value => call.tx.hash = txHash ∧ call.tx.MintsValue value)
      ((call.apply node).2.checks state) := by
  -- The database and the rejected blocks do not depend on the validation state.
  have swap : ∀ {checks : CheckState},
      (node.checks .initial).RecordsMints
        (fun txHash value => call.tx.hash = txHash ∧ call.tx.MintsValue value) checks →
      (node.checks state).RecordsMints
        (fun txHash value => call.tx.hash = txHash ∧ call.tx.MintsValue value)
        ((node.afterChecks checks).checks state) :=
    fun records => ⟨records.keeps, records.recorded, records.rejectedBlocks⟩
  cases call with
  | checkTransaction params lib fVerifySignature fZerocoinActive tx =>
    exact swap (recordsMints_checkTransaction params lib fVerifySignature fZerocoinActive
      tx (node.checks .initial))
  | acceptToMemoryPool env tx nTime =>
    exact swap (Stage.relates_sequence (recordsMints_admissionStages env node.mempool tx)
      { checks := node.checks .initial, nValueIn := 0, fMissingInputs := false })

/-- An accepted transaction is found in the pool under its hash; nothing else about the
pool's transactions changes. -/
theorem lookup_apply (call : TxCall) (node : RelayState) (hash : Uint256) :
    (call.apply node).2.mempool.lookup hash = node.mempool.lookup hash ∨
      (call.apply node).1 = .accept ∧ call.tx.hash = hash := by
  cases call with
  | checkTransaction params lib fVerifySignature fZerocoinActive tx => exact Or.inl rfl
  | acceptToMemoryPool env tx nTime =>
    unfold apply ColossusCoin.acceptToMemoryPool
    dsimp only
    split_ifs with accepted
    · by_cases here : tx.hash = hash
      · exact Or.inr ⟨accepted, here⟩
      · left
        unfold CTxMemPool.lookup CTxMemPool.addUnchecked
        rw [SortedMap.get?_insert, if_neg fun same => here same.symm]
    · exact Or.inl rfl

end TxCall

end ColossusCoin
