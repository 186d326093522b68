import ColossusCoin.Mempool.Accept
import ColossusCoin.Validation.ConnectAccept
import ColossusCoin.Validation.DistinctInputs

/-!
# What admission to the memory pool says

A transaction that `AcceptToMemoryPool` admits is new to the pool.  Unless it is a
zerocoin spend, the pool records no spender for its inputs, and these are distinct.
-/

namespace ColossusCoin

section

theorem verified_of_checkScripts
    (inline : scripts.nScriptCheckThreads = false)
    (passes : (checkScripts scripts view tx txins start checks).1.1 = none) :
    ∀ i < txins.length, ∃ coins,
      scripts.verifyScript scripts.flags tx (start + i) coins = none := by
  induction txins generalizing start checks with
  | nil => simp
  | cons txin rest ih =>
    rw [checkScripts, inline] at passes
    split at passes
    · cases passes
    · rename_i coins _
      rw [if_neg Bool.false_ne_true] at passes
      unfold verifyNow at passes
      cases verified : scripts.verifyScript scripts.flags tx start coins with
      | some scriptError =>
        rw [verified] at passes
        split_ifs at passes
      | none =>
        rw [verified] at passes
        intro i inRange
        cases i with
        | zero => exact ⟨coins, verified⟩
        | succ i =>
          rw [List.length_cons, Nat.add_lt_add_iff_right] at inRange
          obtain ⟨later, laterVerified⟩ := ih passes i inRange
          exact ⟨later, by rw [← laterVerified, Nat.add_right_comm, Nat.add_assoc]⟩

theorem verified_of_checkInputs
    {params : CChainParams} {scripts : ScriptEnv} {nSpendHeight : Int}
    {view : CCoinsViewCache} {checks : CheckState}
    (inline : scripts.nScriptCheckThreads = false)
    (checked : scripts.fScriptChecks = true)
    (spends : tx.spendsNoCoins = false)
    (passes : (checkInputs params scripts nSpendHeight tx view checks).1.1 = none) :
    ∀ i < tx.vin.length, ∃ coins, scripts.verifyScript scripts.flags tx i coins = none := by
  unfold checkInputs at passes
  rw [if_neg (by simp [spends])] at passes
  split_ifs at passes
  split at passes
  · cases passes
  · split at passes
    · cases passes
    · simpa using verified_of_checkScripts inline passes

theorem neverAccepts_admissionSpendStages :
    Stage.NeverAccepts (Stage.sequence (admissionSpendStages env pool tx)) := by
  apply Stage.neverAccepts_sequence
  intro stage member
  simp only [admissionSpendStages, List.mem_cons, List.not_mem_nil, or_false] at member
  rcases member with rfl | rfl | rfl
  · intro state
    unfold addZerocoinSpent
    split <;> simp
  · exact Stage.neverAccepts_rejectIf _ _
  · apply Stage.neverAccepts_forEach
    intro txin _ state
    unfold admissionCoinSpend
    split
    · simp
    · split_ifs <;> simp

theorem neverAccepts_admissionCoinStages :
    Stage.NeverAccepts (Stage.sequence (admissionCoinStages env pool tx)) := by
  apply Stage.neverAccepts_sequence
  intro stage member
  simp only [admissionCoinStages, List.mem_cons, List.not_mem_nil, or_false] at member
  rcases member with rfl | rfl | rfl | rfl
  · exact Stage.neverAccepts_rejectIf _ _
  · apply Stage.neverAccepts_forEach
    intro txin _
    apply Stage.neverAccepts_sequence
    intro stage inInput
    simp only [List.mem_cons, List.not_mem_nil, or_false] at inInput
    rcases inInput with rfl | rfl
    · exact Stage.neverAccepts_rejectIf _ _
    · exact Stage.neverAccepts_rejectIf _ _
  · exact Stage.neverAccepts_rejectIf _ _
  · intro state
    unfold admissionValueIn
    split <;> simp

theorem neverAccepts_admissionFee : Stage.NeverAccepts (admissionFee env tx) := by
  intro state
  unfold admissionFee
  split
  · simp
  · rename_i nValueOut _
    dsimp only
    cases env.feePolicy tx (state.nValueIn - nValueOut) <;> dsimp only <;> split_ifs <;> simp

theorem neverAccepts_admissionStages :
    ∀ stage ∈ admissionStages env pool tx, Stage.NeverAccepts stage := by
  intro stage member
  simp only [admissionStages, List.mem_cons, List.not_mem_nil, or_false] at member
  rcases member with rfl | rfl | rfl | rfl | rfl | rfl | rfl | rfl | rfl | rfl | rfl | rfl |
    rfl | rfl | rfl
  · exact Stage.neverAccepts_rejectIf _ _
  · exact Stage.neverAccepts_require _ _
  · exact Stage.neverAccepts_rejectIf _ _
  · exact Stage.neverAccepts_rejectIf _ _
  · intro state
    unfold requireStandardTx
    split <;> simp
  · exact Stage.neverAccepts_rejectIf _ _
  · exact Stage.neverAccepts_rejectIf _ _
  · exact Stage.neverAccepts_rejectIf _ _
  · exact Stage.neverAccepts_rejectIf _ _
  · split_ifs
    · exact neverAccepts_admissionSpendStages
    · exact neverAccepts_admissionCoinStages
  · exact Stage.neverAccepts_rejectIf _ _
  · apply Stage.neverAccepts_when
    intro state
    unfold admissionSigOps
    split
    · simp
    · split_ifs <;> simp
  · exact neverAccepts_admissionFee
  · intro state
    exact (endsAtInputs_checkInputs _).ne_accept
  · intro state
    exact (endsAtInputs_checkInputs _).ne_accept

theorem passes_of_admission
    (accepted : (acceptToMemoryPool env pool tx nTime checks).1.1 = .accept)
    (member : stage ∈ admissionStages env pool tx) :
    ∃ reached, (stage reached).1 = none :=
  Stage.passes_of_mem (Stage.sequence_passes_of_accept neverAccepts_admissionStages accepted) member

end

/-- A transaction that can join a pool. -/
structure CTxMemPool.Admissible (pool : CTxMemPool) (tx : CTransaction) : Prop where
  fresh : pool.mapTx.get? tx.hash = none
  notCoinBase : tx.isCoinBase = false
  unrecorded : tx.isZerocoinSpend = false →
    ∀ outpoint ∈ tx.prevouts, pool.mapNextTx outpoint = none
  distinct : tx.isZerocoinSpend = false → tx.prevouts.Nodup

section

/-- An admitted transaction that spends coins has no input with the script of a
zerocoin spend, since its scripts are verified. -/
theorem scripts_of_admission
    (accepted : (acceptToMemoryPool env pool tx nTime checks).1.1 = .accept)
    (spends : tx.spendsNoCoins = false) :
    ∀ txin ∈ tx.vin, txin.scriptSig.isZerocoinSpend = false := by
  have member : admissionCheckInputs env pool tx true ∈ admissionStages env pool tx := by
    simp [admissionStages]
  obtain ⟨reached, passed⟩ := passes_of_admission accepted member
  have verified := @verified_of_checkInputs tx env.connect.context.params
    (env.scriptEnv true) _ _ _ rfl rfl spends passed
  intro txin inVin
  obtain ⟨i, inRange, atPosition⟩ := List.getElem_of_mem inVin
  obtain ⟨coins, passes⟩ := verified i inRange
  change env.verifyStandard tx i coins = none at passes
  by_contra zerocoin
  rw [Bool.not_eq_false] at zerocoin
  have fails := env.verifyStandard_isSome tx i coins txin
    (List.getElem?_eq_some_iff.mpr ⟨inRange, atPosition⟩) zerocoin
  rw [passes] at fails
  cases fails

theorem admissible_of_accept
    {nTime : Int} {checks : CheckState}
    (accepted : (acceptToMemoryPool env pool tx nTime checks).1.1 = .accept) :
    pool.Admissible tx := by
  have notCoinBase : tx.isCoinBase = false := by
    have member : Stage.rejectIf (fun _ => tx.isCoinBase)
        (AdmissionState.dos 100 rejectInvalid "coinbase") ∈ admissionStages env pool tx := by
      simp [admissionStages]
    obtain ⟨reached, passed⟩ := passes_of_admission accepted member
    exact Stage.test_of_rejectIf (fun _ => tx.isCoinBase) passed
  refine ⟨?_, notCoinBase, ?_, ?_⟩
  · have member : Stage.rejectIf (fun _ : AdmissionState => pool.contains tx.hash) id ∈
        admissionStages env pool tx := by
      simp [admissionStages]
    obtain ⟨reached, passed⟩ := passes_of_admission accepted member
    have absent := Stage.test_of_rejectIf (fun _ => pool.contains tx.hash) passed
    simpa [CTxMemPool.contains, SortedMap.contains] using absent
  · intro ordinary outpoint named
    have member : Stage.rejectIf (fun _ : AdmissionState => conflictsWithPool pool tx) id ∈
        admissionStages env pool tx := by
      simp [admissionStages]
    obtain ⟨reached, passed⟩ := passes_of_admission accepted member
    have apart := Stage.test_of_rejectIf (fun _ => conflictsWithPool pool tx) passed
    simp only [conflictsWithPool, ordinary, Bool.not_false, Bool.true_and,
      List.any_eq_false, Bool.not_eq_true, Option.isSome_eq_false_iff,
      Option.isNone_iff_eq_none] at apart
    exact apart outpoint named
  · intro ordinary
    have spends : tx.spendsNoCoins = false := by
      simp [CTransaction.spendsNoCoins, notCoinBase, ordinary]
    have member : admissionCheckTransaction env tx ∈ admissionStages env pool tx := by
      simp [admissionStages]
    obtain ⟨reached, passed⟩ := passes_of_admission accepted member
    unfold admissionCheckTransaction at passed
    rw [Stage.require_eq] at passed
    have checked := ite_eq_left_iff.mp passed
    simp only [reduceCtorEq, imp_false, Decidable.not_not] at checked
    rw [nodup_prevouts_iff (hasDuplicateInput_of_accept checked)]
    apply List.Pairwise.imp_of_mem _ (List.pairwise_of_forall fun _ _ => trivial)
    intro first second inVin _ _ zerocoin
    rw [scripts_of_admission accepted spends first inVin] at zerocoin
    cases zerocoin

end
end ColossusCoin
