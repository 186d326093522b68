import ColossusCoin.Library.Undo
import ColossusCoin.Validation.Disconnect

/-!
# When disconnecting undoes connecting

What each edit of `DisconnectBlock` makes of coins that the matching edit of
`UpdateCoins` left, and of coins that have already drifted from them.  A drift
is never mended: it stays, or a later edit notices it.
-/

namespace ColossusCoin

/-- The coins came back without their coinstake mark. -/
def LostStake (before after : CCoins) : Prop :=
  before.isPruned = false ∧ before.fCoinStake = true ∧
    after = { before with fCoinStake := false }

/-- Unspent coins did not come back. -/
def LostCoins (before after : CCoins) : Prop :=
  before.isPruned = false ∧ after.isPruned = true

/-- The two ways in which disconnecting a block loses something. -/
def Deviates (before after : CCoins) : Prop :=
  LostStake before after ∨ LostCoins before after

variable {coins : CCoins}

theorem Deviates.not_same
    (deviates : Deviates before after) :
    after.same before = false := by
  rw [Bool.eq_false_iff]
  intro same
  rcases deviates with ⟨unspent, stake, rfl⟩ | ⟨unspent, pruned⟩
  · have equal := CCoins.eq_of_same same unspent
    rw [← equal] at stake
    cases stake
  · rw [CCoins.isPruned_eq_of_same same, unspent] at pruned
    cases pruned

theorem Deviates.of_same
    (deviates : Deviates before after)
    (same : other.same after = true) :
    Deviates before other := by
  rcases deviates with ⟨unspent, stake, rfl⟩ | ⟨unspent, pruned⟩
  · rw [CCoins.same_comm] at same
    exact Or.inl ⟨unspent, stake, (CCoins.eq_of_same same unspent).symm⟩
  · exact Or.inr ⟨unspent, (CCoins.isPruned_eq_of_same same).trans pruned⟩

theorem isPruned_clearUnspendable
    (pruned : coins.isPruned = true) :
    coins.clearUnspendable.isPruned = true := by
  rw [CCoins.clearUnspendable, CCoins.isPruned_cleanup]
  rw [CCoins.isPruned, List.all_eq_true] at pruned ⊢
  intro txout present
  rw [List.mem_map] at present
  obtain ⟨original, inCoins, rfl⟩ := present
  split
  · rfl
  · exact pruned original inCoins

/-- Coins equal to what the transaction made are recognised. -/
theorem removeOutputs_of_same
    (same : coins.same (CCoins.fromTx tx nHeight) = true) :
    (removeOutputs tx nHeight coins).1 = true := by
  simp only [removeOutputs]
  cases pruned : coins.isPruned with
  | true =>
    have madePruned := CCoins.isPruned_eq_of_same same
    rw [pruned] at madePruned
    refine (CCoins.same_iff _ _).mpr (Or.inl ⟨?_, madePruned.symm⟩)
    split
    · exact isPruned_clearUnspendable pruned
    · exact isPruned_clearUnspendable pruned
  | false =>
    rw [CCoins.eq_of_same same pruned, CCoins.clearUnspendable_fromTx]
    split
    · exact CCoins.same_refl _
    · exact CCoins.same_refl _

/-- Coins that drifted from what the transaction made are noticed. -/
theorem removeOutputs_of_deviates
    (makes : made.same (CCoins.fromTx tx nHeight) = true)
    (deviates : Deviates made coins) :
    (removeOutputs tx nHeight coins).1 = false := by
  have unspent : (CCoins.fromTx tx nHeight).isPruned = false := by
    rw [← CCoins.isPruned_eq_of_same makes]
    rcases deviates with ⟨unspent, _⟩ | ⟨unspent, _⟩
    · exact unspent
    · exact unspent
  simp only [removeOutputs]
  rw [Bool.eq_false_iff]
  intro same
  rw [CCoins.same_comm] at same
  have equal := CCoins.eq_of_same same unspent
  rcases deviates with ⟨madeUnspent, stake, rfl⟩ | ⟨_, pruned⟩
  · rw [CCoins.eq_of_same makes madeUnspent] at stake equal
    have marks := congrArg CCoins.fCoinStake equal
    rw [stake] at marks
    split at marks
    · cases marks
    · cases marks
  · have remains : (CCoins.fromTx tx nHeight).isPruned = true := by
      rw [equal]
      split
      · exact isPruned_clearUnspendable pruned
      · exact isPruned_clearUnspendable pruned
    rw [unspent] at remains
    cases remains

/-- What a spend can be undone from: it leaves unspent outputs, or its undo
record carries a height and there is no coinstake mark to lose. -/
def spendReversible (n : Nat) (coins : CCoins) : Bool :=
  match coins.spend n with
  | none => false
  | some (remaining, _) =>
    !remaining.isPruned || (!coins.fCoinStake && coins.nHeight != 0)

theorem isAvailable_spent
    (spent : coins.spend n = some (remaining, undo)) :
    remaining.isAvailable n = false := by
  obtain ⟨txout, atPosition, _, rfl, _⟩ := CCoins.spend_eq_some spent
  unfold CCoins.isAvailable
  cases left : (CCoins.cleanup { coins with vout := coins.vout.set n CTxOut.null }).vout[n]? with
  | none => rfl
  | some other =>
    have inSet := TrimmedList.getElem?_of_trim left
    have bound : n < coins.vout.length := (List.getElem?_eq_some_iff.mp atPosition).1
    rw [List.getElem?_set_self bound, Option.some.injEq] at inSet
    rw [← inSet]
    rfl

/-- Writing a spent output back over what remained restores all outputs. -/
theorem writeAt_spent
    (wellFormed : coins.WellFormed)
    (spent : coins.spend n = some (remaining, undo)) :
    TrimmedList.writeAt CTxOut.null remaining.vout n undo.txout = coins.vout := by
  obtain ⟨txout, atPosition, _, rfl, txoutEq, _⟩ := CCoins.spend_eq_some spent
  rw [txoutEq]
  exact TrimmedList.writeAt_trim_set CTxOut.isNull_null wellFormed.nulls
    (congrArg CCoins.vout wellFormed.trimmed) atPosition

/-- Writing back to what remained, under whatever mark, when outputs are left. -/
theorem restoreOutput_of_remaining
    (fCoinStake : Bool)
    (wellFormed : coins.WellFormed)
    (spent : coins.spend n = some (remaining, undo))
    (unspent : remaining.isPruned = false) :
    restoreOutput undo n { remaining with fCoinStake := fCoinStake } =
      (true, { coins with fCoinStake := fCoinStake }) := by
  obtain ⟨_, _, _, remainingEq, _, _, withoutHeight⟩ := CCoins.spend_eq_some spent
  have notAvailable : ({ remaining with fCoinStake := fCoinStake } : CCoins).isAvailable
      n = false := by
    change remaining.isAvailable n = false
    exact isAvailable_spent spent
  have outputs := writeAt_spent wellFormed spent
  have unspentMarked : ({ remaining with fCoinStake := fCoinStake } : CCoins).isPruned =
      false := unspent
  have noHeight : ¬ undo.nHeight ≠ 0 := by simp [withoutHeight unspent]
  simp only [restoreOutput, restoreMetadata, if_neg noHeight, unspentMarked, notAvailable, outputs]
  rw [remainingEq]
  rfl

/-- Writing back the last output restores the entry but for its coinstake
mark. -/
theorem restoreOutput_of_emptied
    (wellFormed : coins.WellFormed)
    (spent : coins.spend n = some (remaining, undo))
    (emptied : remaining.isPruned = true)
    (hasHeight : coins.nHeight ≠ 0)
    (isPruned : pruned.isPruned = true) :
    restoreOutput undo n pruned = (true, { coins with fCoinStake := false }) := by
  obtain ⟨_, _, _, _, _, metadata, _⟩ := CCoins.spend_eq_some spent
  obtain ⟨coinBase, _, height, version⟩ := metadata emptied
  have remainingNil : remaining.vout = [] := (wellFormed.spend spent).vout_eq_nil emptied
  have outputs := writeAt_spent wellFormed spent
  rw [remainingNil] at outputs
  have withHeight : undo.nHeight ≠ 0 := by rw [height]; exact hasHeight
  have restored : restoreMetadata undo pruned =
      (true,
        { CCoins.cleared with
          fCoinBase := coins.fCoinBase
          nHeight := coins.nHeight
          nVersion := coins.nVersion }) := by
    rw [restoreMetadata, if_pos withHeight, isPruned, coinBase, height, version]
  rw [restoreOutput, restored]
  simp only [CCoins.cleared, outputs]
  rfl

/-- Writing back to pruned coins without a recorded height is noticed. -/
theorem restoreOutput_of_isPruned
    (isPruned : pruned.isPruned = true)
    (noHeight : undo.nHeight = 0) :
    (restoreOutput undo n pruned).1 = false := by
  simp [restoreOutput, restoreMetadata, noHeight, isPruned]

/-- What a backward edit must do to the coins that a forward one left. -/
structure EditUndone (before after : CCoins) (edit : CCoins → Bool × CCoins)
    (condition : Prop) : Prop where
  restores : ∀ coins, coins.same after = true → condition →
    (edit coins).1 = true ∧ (edit coins).2.cleanup.same before = true
  spoils : ∀ coins, coins.same after = true → ¬condition →
    (edit coins).1 = false ∨ Deviates before (edit coins).2.cleanup
  stays : ∀ coins, Deviates after coins →
    (edit coins).1 = false ∨ Deviates before (edit coins).2.cleanup

theorem editUndone_removeOutputs
    (makes : after.same (CCoins.fromTx tx nHeight) = true) :
    EditUndone before after (removeOutputs tx nHeight) (before.isPruned = true) where
  restores := by
    intro coins same pruned
    refine ⟨removeOutputs_of_same (CCoins.same_trans same makes), ?_⟩
    exact (CCoins.same_iff _ _).mpr (Or.inl ⟨rfl, pruned⟩)
  spoils := by
    intro coins _ unspent
    exact Or.inr (Or.inr ⟨by simpa using unspent, rfl⟩)
  stays := fun coins deviates => Or.inl (removeOutputs_of_deviates makes deviates)

theorem editUndone_restoreOutput
    (wellFormed : before.WellFormed)
    (spent : before.spend n = some (remaining, undo))
    (left : after.same remaining = true) :
    EditUndone before after (restoreOutput undo n)
      (spendReversible n before = true) := by
  have unspentBefore := CCoins.isPruned_eq_false_of_spend spent
  have marks : remaining.fCoinStake = before.fCoinStake := by
    obtain ⟨_, _, _, rfl, _⟩ := CCoins.spend_eq_some spent
    rfl
  have unmarked : ∀ fCoinStake : Bool,
      ({ before with fCoinStake := fCoinStake } : CCoins).cleanup =
        { before with fCoinStake := fCoinStake } := by
    intro fCoinStake
    have outputs := congrArg CCoins.vout wellFormed.trimmed
    simp only [CCoins.cleanup] at outputs ⊢
    rw [outputs]
  have keepsMark : before.fCoinStake = false →
      ({ before with fCoinStake := false } : CCoins) = before := by
    intro noStake
    rw [← noStake]
  have reversible : spendReversible n before =
      (!remaining.isPruned || (!before.fCoinStake && before.nHeight != 0)) := by
    rw [spendReversible, spent]
  rw [reversible]
  cases emptied : remaining.isPruned with
  | false =>
    -- Outputs remain, so the record carries no metadata.
    have kept : ∀ coins : CCoins, coins.same after = true → coins = remaining := by
      intro coins same
      have equal := CCoins.same_trans same left
      rw [CCoins.same_comm] at equal
      exact (CCoins.eq_of_same equal emptied).symm
    refine ⟨?_, ?_, ?_⟩
    · intro coins same _
      rw [kept coins same]
      have restored := restoreOutput_of_remaining remaining.fCoinStake wellFormed
        spent emptied
      rw [show ({ remaining with fCoinStake := remaining.fCoinStake } : CCoins) =
        remaining from rfl] at restored
      rw [restored, marks]
      refine ⟨rfl, ?_⟩
      rw [show ({ before with fCoinStake := before.fCoinStake } : CCoins) = before
        from rfl, wellFormed.trimmed]
      exact CCoins.same_refl _
    · intro _ _ fails
      simp at fails
    · rintro coins (⟨unspent, stake, rfl⟩ | ⟨_, pruned⟩)
      · have afterEq := CCoins.eq_of_same left unspent
        rw [afterEq] at stake ⊢
        rw [restoreOutput_of_remaining false wellFormed spent emptied]
        refine Or.inr (Or.inl ⟨unspentBefore, by rw [← marks, stake], unmarked false⟩)
      · obtain ⟨_, _, _, _, _, _, withoutHeight⟩ := CCoins.spend_eq_some spent
        exact Or.inl (restoreOutput_of_isPruned pruned (withoutHeight emptied))
  | true =>
    -- Nothing remains: the coins to restore over are pruned.
    have afterPruned : after.isPruned = true :=
      (CCoins.isPruned_eq_of_same left).trans emptied
    have prunedOf : ∀ coins : CCoins, coins.same after = true →
        coins.isPruned = true :=
      fun coins same => (CCoins.isPruned_eq_of_same same).trans afterPruned
    obtain ⟨_, _, _, _, _, metadata, _⟩ := CCoins.spend_eq_some spent
    refine ⟨?_, ?_, ?_⟩
    · intro coins same holds
      obtain ⟨noStake, hasHeight⟩ : before.fCoinStake = false ∧ before.nHeight ≠ 0 := by
        simpa using holds
      rw [restoreOutput_of_emptied wellFormed spent emptied hasHeight
        (prunedOf coins same)]
      refine ⟨rfl, ?_⟩
      rw [unmarked false, keepsMark noStake]
      exact CCoins.same_refl _
    · intro coins same fails
      by_cases hasHeight : before.nHeight = 0
      · refine Or.inl (restoreOutput_of_isPruned (prunedOf coins same) ?_)
        rw [(metadata emptied).2.2.1, hasHeight]
      · have stake : before.fCoinStake = true := by
          by_contra noStake
          exact fails (by simp [noStake, hasHeight])
        rw [restoreOutput_of_emptied wellFormed spent emptied hasHeight
          (prunedOf coins same)]
        exact Or.inr (Or.inl ⟨unspentBefore, stake, unmarked false⟩)
    · rintro coins (⟨unspent, _⟩ | ⟨unspent, _⟩)
      · rw [afterPruned] at unspent
        cases unspent
      · rw [afterPruned] at unspent
        cases unspent

end ColossusCoin
