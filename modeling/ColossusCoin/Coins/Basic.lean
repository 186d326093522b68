import ColossusCoin.Library.TrimmedList
import ColossusCoin.Primitives.Transaction

/-!
# Unspent outputs of one transaction

`CCoins` keeps the outputs of a transaction that are still unspent, together
with the transaction's metadata.  Spending an output yields an undo record,
which carries the metadata only when the last output goes.
-/

namespace ColossusCoin

/-- `CCoins`: spent outputs are null, and null outputs at the end are dropped. -/
structure CCoins where
  fCoinBase : Bool
  fCoinStake : Bool
  vout : List CTxOut
  nHeight : Int
  nVersion : Int
  deriving DecidableEq, Repr

/-- `CTxInUndo`: the spent output and, when it was the last one, the metadata
of its transaction. -/
structure CTxInUndo where
  txout : CTxOut
  fCoinBase : Bool
  fCoinStake : Bool
  nHeight : Int
  nVersion : Int
  deriving DecidableEq, Repr

namespace CCoins

/-- `CCoins()`, which `Clear` also leaves. -/
def cleared : CCoins where
  fCoinBase := false
  fCoinStake := false
  vout := []
  nHeight := 0
  nVersion := 0

/-- `CCoins::Cleanup`: drop spent outputs at the end. -/
def cleanup (coins : CCoins) : CCoins :=
  { coins with vout := TrimmedList.trim CTxOut.isNull coins.vout }

/-- `CCoins::ClearUnspendable`. -/
def clearUnspendable (coins : CCoins) : CCoins :=
  cleanup
    { coins with
      vout := coins.vout.map fun txout =>
        if txout.scriptPubKey.isUnspendable then CTxOut.null else txout }

/-- `CCoins::FromTx`, and the constructor that calls it. -/
def fromTx (tx : CTransaction) (nHeight : Int) : CCoins :=
  clearUnspendable
    { fCoinBase := tx.isCoinBase
      fCoinStake := tx.isCoinStake
      vout := tx.vout
      nHeight := nHeight
      nVersion := tx.nVersion }

/-- `CCoins::IsPruned`: every output is spent. -/
def isPruned (coins : CCoins) : Bool :=
  coins.vout.all CTxOut.isNull

/-- `operator==`: all pruned coins are equal. -/
def same (left right : CCoins) : Bool :=
  left.isPruned && right.isPruned || left == right

/-- `CCoins::IsAvailable`. -/
def isAvailable (coins : CCoins) (nPos : Nat) : Bool :=
  match coins.vout[nPos]? with
  | none => false
  | some txout => !txout.isNull && !txout.scriptPubKey.isZerocoinMint

/-- `CCoins::Spend`: `none` where the source returns false. -/
def spend (coins : CCoins) (n : Nat) : Option (CCoins × CTxInUndo) :=
  match coins.vout[n]? with
  | none => none
  | some txout =>
    if txout.isNull then none
    else
      let remaining := cleanup { coins with vout := coins.vout.set n CTxOut.null }
      if remaining.vout.isEmpty then
        some (remaining,
          { txout := txout
            fCoinBase := coins.fCoinBase
            fCoinStake := coins.fCoinStake
            nHeight := coins.nHeight
            nVersion := coins.nVersion })
      else
        some (remaining,
          { txout := txout
            fCoinBase := false
            fCoinStake := false
            nHeight := 0
            nVersion := 0 })

/-- What every coins entry keeps: null outputs are plain nulls, and none stands
at the end. -/
structure WellFormed (coins : CCoins) : Prop where
  nulls : ∀ txout ∈ coins.vout, txout.isNull = true → txout = CTxOut.null
  trimmed : coins.cleanup = coins

@[simp] theorem isPruned_cleared : cleared.isPruned = true := rfl

@[simp] theorem isPruned_cleanup (coins : CCoins) :
    coins.cleanup.isPruned = coins.isPruned :=
  TrimmedList.all_isBlank_trim coins.vout

@[simp] theorem cleanup_cleanup (coins : CCoins) :
    coins.cleanup.cleanup = coins.cleanup := by
  simp only [cleanup, TrimmedList.trim_trim]

theorem isPruned_of_vout_eq_nil
    {coins : CCoins}
    (empty : coins.vout = []) :
    coins.isPruned = true := by
  simp [isPruned, empty]

/-- Coins without spent outputs at their end store nothing exactly when every
output is spent. -/
theorem isEmpty_vout_of_trimmed
    {coins : CCoins}
    (trimmed : coins.cleanup = coins) :
    coins.vout.isEmpty = coins.isPruned := by
  rw [Bool.eq_iff_iff, List.isEmpty_iff]
  constructor
  · exact isPruned_of_vout_eq_nil
  · intro pruned
    rw [← congrArg CCoins.vout trimmed]
    exact (TrimmedList.trim_eq_nil_iff coins.vout).mpr (by simpa [isPruned] using pruned)

theorem same_iff (left right : CCoins) :
    left.same right = true ↔
      (left.isPruned = true ∧ right.isPruned = true) ∨ left = right := by
  simp [same]

@[simp] theorem same_refl (coins : CCoins) : coins.same coins = true := by
  simp [same_iff]

theorem same_comm (left right : CCoins) :
    left.same right = right.same left := by
  rw [Bool.eq_iff_iff, same_iff, same_iff]
  constructor
  · rintro (⟨leftPruned, rightPruned⟩ | equal)
    · exact Or.inl ⟨rightPruned, leftPruned⟩
    · exact Or.inr equal.symm
  · rintro (⟨rightPruned, leftPruned⟩ | equal)
    · exact Or.inl ⟨leftPruned, rightPruned⟩
    · exact Or.inr equal.symm

variable {left : CCoins} {coins : CCoins}

theorem isPruned_eq_of_same
    (equal : left.same right = true) :
    left.isPruned = right.isPruned := by
  rcases (same_iff left right).mp equal with ⟨leftPruned, rightPruned⟩ | rfl
  · rw [leftPruned, rightPruned]
  · rfl

theorem same_trans
    {first second third : CCoins}
    (left : first.same second = true)
    (right : second.same third = true) :
    first.same third = true := by
  rcases (same_iff first second).mp left with ⟨firstPruned, secondPruned⟩ | rfl
  · have thirdPruned := isPruned_eq_of_same right
    rw [secondPruned] at thirdPruned
    exact (same_iff first third).mpr (Or.inl ⟨firstPruned, thirdPruned.symm⟩)
  · exact right

theorem eq_of_same
    (equal : left.same right = true)
    (unspent : left.isPruned = false) :
    left = right := by
  rcases (same_iff left right).mp equal with ⟨leftPruned, _⟩ | rfl
  · rw [leftPruned] at unspent
    cases unspent
  · rfl

theorem wellFormed_cleared : cleared.WellFormed where
  nulls := by simp [cleared]
  trimmed := rfl

/-- A well-formed entry without unspent outputs stores none. -/
theorem WellFormed.vout_eq_nil
    {coins : CCoins}
    (wellFormed : coins.WellFormed)
    (pruned : coins.isPruned = true) :
    coins.vout = [] := by
  rw [← List.isEmpty_iff, isEmpty_vout_of_trimmed wellFormed.trimmed, pruned]

theorem WellFormed.of_same
    {coins other : CCoins}
    (wellFormed : other.WellFormed)
    (trimmed : coins.cleanup = coins)
    (equal : coins.same other = true) :
    coins.WellFormed := by
  rcases (same_iff coins other).mp equal with ⟨pruned, _⟩ | rfl
  · have empty : coins.vout = [] := by
      rw [← List.isEmpty_iff, isEmpty_vout_of_trimmed trimmed, pruned]
    exact ⟨by simp [empty], trimmed⟩
  · exact wellFormed

theorem WellFormed.cleanup_of_nulls
    (nulls : ∀ txout ∈ coins.vout, txout.isNull = true → txout = CTxOut.null) :
    coins.cleanup.WellFormed where
  nulls := fun txout present => nulls txout (TrimmedList.trim_subset present)
  trimmed := cleanup_cleanup coins

/-- A transaction without negative outputs makes well-formed coins. -/
theorem wellFormed_fromTx
    (nonneg : ∀ txout ∈ tx.vout, 0 ≤ txout.nValue)
    (nHeight : Int) :
    (fromTx tx nHeight).WellFormed := by
  apply WellFormed.cleanup_of_nulls
  intro txout present null
  simp only [List.mem_map] at present
  obtain ⟨original, inTx, rfl⟩ := present
  by_cases unspendable : original.scriptPubKey.isUnspendable = true
  · rw [if_pos unspendable]
  · rw [if_neg unspendable] at null
    have notNull := CTxOut.isNull_eq_false_of_nonneg (nonneg original inTx)
    rw [notNull] at null
    cases null

/-- Clearing unspendable outputs a second time changes nothing. -/
theorem clearUnspendable_fromTx (tx : CTransaction) (nHeight : Int) :
    (fromTx tx nHeight).clearUnspendable = fromTx tx nHeight := by
  have unchanged : (fromTx tx nHeight).vout.map (fun txout =>
        if txout.scriptPubKey.isUnspendable then CTxOut.null else txout) =
      (fromTx tx nHeight).vout := by
    conv_rhs => rw [← List.map_id (fromTx tx nHeight).vout]
    apply List.map_congr_left
    intro txout present
    have inMap := TrimmedList.trim_subset present
    simp only [List.mem_map] at inMap
    obtain ⟨original, _, rfl⟩ := inMap
    by_cases unspendable : original.scriptPubKey.isUnspendable = true
    · simp [unspendable]
    · simp [unspendable]
  rw [clearUnspendable, unchanged]
  change (fromTx tx nHeight).cleanup = fromTx tx nHeight
  exact cleanup_cleanup _

/-- What a successful spend did. -/
theorem spend_eq_some
    {n : Nat}
    (spent : coins.spend n = some (remaining, undo)) :
    ∃ txout, coins.vout[n]? = some txout ∧ txout.isNull = false ∧
      remaining = cleanup { coins with vout := coins.vout.set n CTxOut.null } ∧
      undo.txout = txout ∧
      (remaining.isPruned = true →
        undo.fCoinBase = coins.fCoinBase ∧ undo.fCoinStake = coins.fCoinStake ∧
          undo.nHeight = coins.nHeight ∧ undo.nVersion = coins.nVersion) ∧
      (remaining.isPruned = false → undo.nHeight = 0) := by
  unfold spend at spent
  cases atPosition : coins.vout[n]? with
  | none => simp [atPosition] at spent
  | some txout =>
    simp only [atPosition] at spent
    by_cases null : txout.isNull = true
    · simp [null] at spent
    · rw [if_neg null] at spent
      have emptyIff : ∀ rest : CCoins,
          (rest.cleanup.vout.isEmpty = true ↔ rest.cleanup.isPruned = true) := by
        intro rest
        rw [List.isEmpty_iff]
        constructor
        · exact isPruned_of_vout_eq_nil
        · intro pruned
          rw [isPruned_cleanup] at pruned
          exact (TrimmedList.trim_eq_nil_iff rest.vout).mpr
            (by simpa [isPruned] using pruned)
      split at spent <;> rename_i emptied <;>
        obtain ⟨rfl, rfl⟩ := spent
      · have pruned := (emptyIff _).mp emptied
        refine ⟨txout, rfl, by simpa using null, rfl, rfl, ?_, ?_⟩
        · intro _
          exact ⟨rfl, rfl, rfl, rfl⟩
        · intro unspent
          rw [pruned] at unspent
          cases unspent
      · refine ⟨txout, rfl, by simpa using null, rfl, rfl, ?_, fun _ => rfl⟩
        intro pruned
        exact absurd ((emptyIff _).mpr pruned) emptied

/-- A spend succeeds exactly on a stored output that is not null. -/
theorem spend_isSome_iff (coins : CCoins) (n : Nat) :
    (coins.spend n).isSome = true ↔
      ∃ txout, coins.vout[n]? = some txout ∧ txout.isNull = false := by
  unfold spend
  cases atPosition : coins.vout[n]? with
  | none => simp
  | some txout =>
    cases null : txout.isNull with
    | true => simp [null]
    | false =>
      simp only [null, Bool.false_eq_true, if_false, Option.some.injEq, exists_eq_left', iff_true]
      split <;> rfl

theorem isPruned_eq_false_of_spend
    (spent : coins.spend n = some (remaining, undo)) :
    coins.isPruned = false := by
  obtain ⟨txout, atPosition, notNull, _⟩ := spend_eq_some spent
  rw [isPruned, List.all_eq_false]
  exact ⟨txout, List.mem_of_getElem? atPosition, by simp [notNull]⟩

theorem WellFormed.spend
    (wellFormed : coins.WellFormed)
    (spent : coins.spend n = some (remaining, undo)) :
    remaining.WellFormed := by
  obtain ⟨txout, _, _, rfl, _⟩ := spend_eq_some spent
  apply WellFormed.cleanup_of_nulls
  intro other present null
  rcases List.mem_or_eq_of_mem_set present with inCoins | rfl
  · exact wellFormed.nulls other inCoins null
  · rfl

/-- Spending one output leaves the availability of the others. -/
theorem isAvailable_of_spend
    (spent : coins.spend n = some (remaining, undo))
    (different : other ≠ n)
    (available : coins.isAvailable other = true) :
    remaining.isAvailable other = true := by
  obtain ⟨txout, _, _, rfl, _⟩ := spend_eq_some spent
  unfold isAvailable at available ⊢
  cases atOther : coins.vout[other]? with
  | none => simp [atOther] at available
  | some txoutOther =>
    simp only [atOther] at available
    have inSet : (coins.vout.set n CTxOut.null)[other]? = some txoutOther := by
      rw [List.getElem?_set_ne different.symm, atOther]
    have notNull : txoutOther.isNull = false := by
      simp only [Bool.and_eq_true, Bool.not_eq_true'] at available
      exact available.1
    have kept : (TrimmedList.trim CTxOut.isNull
          (coins.vout.set n CTxOut.null))[other]? = some txoutOther :=
      TrimmedList.getElem?_trim_of_not_blank inSet notNull
    simp only [cleanup, kept, available]

end CCoins
end ColossusCoin
