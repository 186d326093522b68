import ColossusCoin.Mempool.Consistency
import ColossusCoin.Validation.SpendRecords

/-!
# Serials and outpoints in the memory pool

Conflicts in the memory pool are found by outpoint, and zerocoin spends are not asked.
This module says what has to hold of the admitted transactions and of the connected
blocks for the pool to be free of conflicts, with itself and with the block.
-/

namespace ColossusCoin

/-- The serials that a transaction spends. -/
def CTransaction.serials (txInToZerocoinSpend : CTxIn → Option CoinSpend)
    (tx : CTransaction) : List CBigNum :=
  serialsOf (tx.spends txInToZerocoinSpend)

theorem CTransaction.isZerocoinSpend_of_serial
    {tx : CTransaction}
    (spent : serial ∈ tx.serials txInToZerocoinSpend) :
    tx.isZerocoinSpend = true := by
  unfold serials spends at spent
  by_contra ordinary
  simp [ordinary, serialsOf] at spent

section

variable (txInToZerocoinSpend : CTxIn → Option CoinSpend)

/-- Two transactions spend no common serial. -/
def SerialsApart (tx other : CTransaction) : Prop :=
  ∀ serial ∈ tx.serials txInToZerocoinSpend, serial ∉ other.serials txInToZerocoinSpend

/-- Two transactions spend no common serial, and share no outpoint but the null one. -/
def NoConflict (tx other : CTransaction) : Prop :=
  SerialsApart txInToZerocoinSpend tx other ∧
    ∀ outpoint ∈ tx.prevouts, outpoint ∈ other.prevouts → outpoint.isNull = true

/-- No two transactions of the pool spend the same serial. -/
def CTxMemPool.SerialsDistinct (pool : CTxMemPool) : Prop :=
  ∀ tx ∈ pool.transactions, ∀ other ∈ pool.transactions, tx.hash ≠ other.hash →
    SerialsApart txInToZerocoinSpend tx other

/-- No transaction of the pool is in conflict with one of a block. -/
def CTxMemPool.ClearOf (pool : CTxMemPool) (vtx : List CTransaction) : Prop :=
  ∀ tx ∈ pool.transactions, ∀ blockTx ∈ vtx, NoConflict txInToZerocoinSpend tx blockTx

/-- What the code does not check for zerocoin spends: an admitted transaction is in
conflict with none of the pool when one of the two is a zerocoin spend, and a zerocoin
spend of the pool that is not in a connected block is in conflict with none of it. -/
structure MempoolAction.ConflictFree (pool : CTxMemPool) (action : MempoolAction) :
    Prop where
  apart : action.KeepsApart pool
  admitted : ∀ tx, action.Admits pool tx → ∀ other ∈ pool.transactions,
    SerialsApart txInToZerocoinSpend tx other
  connected : ∀ vtx, action = .removeForBlock vtx → ∀ tx ∈ pool.transactions,
    tx.isZerocoinSpend = true → (∀ blockTx ∈ vtx, blockTx.hash ≠ tx.hash) →
      ∀ blockTx ∈ vtx, NoConflict txInToZerocoinSpend tx blockTx

end

namespace CTxMemPool

theorem transactions_subset_removeEntry
    {pool : CTxMemPool} {hash : Uint256}
    (member : tx ∈ (pool.removeEntry hash entry).transactions) :
    tx ∈ pool.transactions := by
  obtain ⟨current, inErased, rfl⟩ := List.mem_map.mp member
  exact List.mem_map_of_mem ((SortedMap.mem_entries_erase _ _ _).mp inErased).2

/-- What holds of each transaction holds on of those that are left. -/
theorem closedUnderRemoval_forall (Good : CTransaction → Prop) :
    ClosedUnderRemoval fun pool => ∀ tx ∈ pool.transactions, Good tx :=
  fun _ _ _ holds _ tx member => holds tx (transactions_subset_removeEntry member)

theorem closedUnderRemoval_and
    (first : ClosedUnderRemoval First) (second : ClosedUnderRemoval Second) :
    ClosedUnderRemoval fun pool => First pool ∧ Second pool :=
  fun pool hash entry holds present =>
    ⟨first pool hash entry holds.1 present, second pool hash entry holds.2 present⟩

theorem closedUnderRemoval_serialsDistinct
    (txInToZerocoinSpend : CTxIn → Option CoinSpend) :
    ClosedUnderRemoval (SerialsDistinct txInToZerocoinSpend) :=
  fun _ _ _ distinct _ tx member other otherMember =>
    distinct tx (transactions_subset_removeEntry member) other
      (transactions_subset_removeEntry otherMember)

/-- A hash that is gone does not come back. -/
theorem closedUnderRemoval_absent (hash : Uint256) :
    ClosedUnderRemoval fun pool => pool.mapTx.get? hash = none := by
  intro pool removedHash entry absent _
  change (pool.mapTx.erase removedHash).get? hash = none
  rw [SortedMap.get?_erase, absent, ite_self]

/-- A removed transaction is gone. -/
theorem absent_of_remove
    (pool : CTxMemPool) (tx : CTransaction) (removed : List CTransaction)
    (fRecursive : Bool) :
    (pool.remove tx removed fRecursive).1.mapTx.get? tx.hash = none := by
  cases present : pool.mapTx.get? tx.hash with
  | none => exact (closedUnderRemoval_absent tx.hash).remove present tx removed fRecursive
  | some entry =>
    have filled : pool.mapTx.size ≠ 0 := by
      have smaller := SortedMap.size_erase_lt present
      omega
    obtain ⟨fuel, size⟩ := Nat.exists_eq_succ_of_ne_zero filled
    unfold remove
    rw [size, removeLoop, popPresent, present]
    apply (closedUnderRemoval_absent tx.hash).removeLoop
    exact SortedMap.get?_erase_self pool.mapTx tx.hash

theorem Kept.hash_ne_of_absent
    {pool : CTxMemPool} {hash : Uint256}
    (kept : pool.Kept)
    (absent : pool.mapTx.get? hash = none) :
    ∀ tx ∈ pool.transactions, tx.hash ≠ hash := by
  intro tx member same
  obtain ⟨entry, inEntries, rfl⟩ := List.mem_map.mp member
  have found := (SortedMap.get?_eq_some_iff pool.mapTx entry.1 entry.2).mpr inEntries
  rw [← kept.hashed entry inEntries, same, absent] at found
  cases found

/-- The conflicts by outpoint go: what is left and is no zerocoin spend names none of
the inputs. -/
theorem unnamed_of_removeConflictsLoop
    (tx : CTransaction) (txins : List CTxIn) {pool : CTxMemPool}
    (kept : pool.Kept)
    (absent : pool.mapTx.get? tx.hash = none) (removed : List CTransaction) :
    ∀ other ∈ (removeConflictsLoop tx txins pool removed).1.transactions,
      other.isZerocoinSpend = false → ∀ txin ∈ txins, txin.prevout ∉ other.prevouts := by
  induction txins generalizing pool removed with
  | nil => simp
  | cons txin rest ih =>
    -- Once no transaction names the first input, none does to the end.
    have finish : ∀ (without : CTxMemPool) (removed : List CTransaction),
        without.Kept → without.mapTx.get? tx.hash = none →
        (∀ other ∈ without.transactions, other.isZerocoinSpend = false →
          txin.prevout ∉ other.prevouts) →
        ∀ other ∈ (removeConflictsLoop tx rest without removed).1.transactions,
          other.isZerocoinSpend = false →
            ∀ current ∈ txin :: rest, current.prevout ∉ other.prevouts := by
      intro without removed withoutKept withoutAbsent unnamed other member ordinary
      rw [List.forall_mem_cons]
      refine ⟨?_, ih withoutKept withoutAbsent removed other member ordinary⟩
      exact (closedUnderRemoval_forall fun other =>
        other.isZerocoinSpend = false → txin.prevout ∉ other.prevouts).removeConflictsLoop
          tx rest unnamed removed other member ordinary
    rw [removeConflictsLoop]
    cases recorded : pool.mapNextTx txin.prevout with
    | none =>
      apply finish pool removed kept absent
      intro other member ordinary named
      obtain ⟨i, inRange, atPosition⟩ := List.getElem_of_mem named
      have spends := (kept.recorded txin.prevout ⟨other, i⟩).mpr
        ⟨member, ordinary, List.getElem?_eq_some_iff.mpr ⟨inRange, atPosition⟩⟩
      rw [recorded] at spends
      cases spends
    | some inPoint =>
      have spends := (kept.recorded _ _).mp recorded
      have differ := kept.hash_ne_of_absent absent inPoint.ptx spends.member
      dsimp only
      rw [if_neg differ]
      have withoutKept := closedUnderRemoval_kept.remove kept inPoint.ptx removed true
      apply finish _ _ withoutKept
        ((closedUnderRemoval_absent tx.hash).remove absent inPoint.ptx removed true)
      intro other member ordinary named
      -- A transaction that still names the input is the recorded one, which is gone.
      have stayed := (closedUnderRemoval_forall (· ∈ pool.transactions)).remove
        (fun _ inPool => inPool) inPoint.ptx removed true other member
      obtain ⟨i, inRange, atPosition⟩ := List.getElem_of_mem named
      have otherRecorded := (kept.recorded txin.prevout ⟨other, i⟩).mpr
        ⟨stayed, ordinary, List.getElem?_eq_some_iff.mpr ⟨inRange, atPosition⟩⟩
      rw [recorded, Option.some.injEq] at otherRecorded
      have gone := absent_of_remove pool inPoint.ptx removed true
      apply withoutKept.hash_ne_of_absent gone other member
      rw [otherRecorded]

/-- After a block, no transaction of it is left, and what is left and is no zerocoin
spend names none of its inputs. -/
theorem clear_of_removeForBlock
    (vtx : List CTransaction) {pool : CTxMemPool}
    (kept : pool.Kept) (conflicts : List CTransaction) :
    ∀ blockTx ∈ vtx, ∀ other ∈ (removeForBlock vtx pool conflicts).1.transactions,
      other.hash ≠ blockTx.hash ∧
        (other.isZerocoinSpend = false →
          ∀ outpoint ∈ blockTx.prevouts, outpoint ∉ other.prevouts) := by
  induction vtx generalizing pool conflicts with
  | nil => simp
  | cons tx rest ih =>
    have removedKept := closedUnderRemoval_kept.remove kept tx [] false
    have absent := absent_of_remove pool tx [] false
    have unnamed := unnamed_of_removeConflictsLoop tx tx.vin removedKept absent conflicts
    have clearedKept := closedUnderRemoval_kept.removeConflicts removedKept tx conflicts
    have clearedAbsent := (closedUnderRemoval_absent tx.hash).removeConflicts absent tx
      conflicts
    rw [removeForBlock, List.forall_mem_cons]
    refine ⟨?_, ih clearedKept _⟩
    apply (closedUnderRemoval_forall fun other => other.hash ≠ tx.hash ∧
      (other.isZerocoinSpend = false →
        ∀ outpoint ∈ tx.prevouts, outpoint ∉ other.prevouts)).removeForBlock
    intro other member
    refine ⟨clearedKept.hash_ne_of_absent clearedAbsent other member, ?_⟩
    intro ordinary outpoint named
    obtain ⟨txin, inVin, rfl⟩ := List.mem_map.mp named
    exact unnamed other member ordinary txin inVin

end CTxMemPool

section

variable {txInToZerocoinSpend : CTxIn → Option CoinSpend}

theorem serialsDistinct_of_run
    (run : (mempoolSystem fun pool action =>
      action.ConflictFree txInToZerocoinSpend pool).Run (.empty fSanityCheck) trace pool) :
    pool.Kept ∧ pool.SerialsDistinct txInToZerocoinSpend := by
  have noEntries : ∀ pool : CTxMemPool, pool.transactions = [] →
      pool.SerialsDistinct txInToZerocoinSpend := by
    intro pool none_left tx member
    simp [none_left] at member
  apply run.invariant ⟨CTxMemPool.kept_empty fSanityCheck, noEntries _ rfl⟩
  rintro current action next ⟨kept, distinct⟩ ⟨conflictFree, applied⟩
  apply action.preserves
    (CTxMemPool.closedUnderRemoval_and CTxMemPool.closedUnderRemoval_kept
      (CTxMemPool.closedUnderRemoval_serialsDistinct txInToZerocoinSpend))
    (fun pool => ⟨pool.kept_clear, noEntries _ rfl⟩) ⟨kept, distinct⟩ _ applied
  intro entry admits
  refine ⟨kept.addUnchecked admits.admissible (conflictFree.apart entry.tx admits), ?_⟩
  have joins := CTxMemPool.mem_transactions_addUnchecked admits.admissible.fresh
  have apart := conflictFree.admitted entry.tx admits
  intro tx member other otherMember differ
  rcases (joins tx).mp member with rfl | inPool
  · rcases (joins other).mp otherMember with rfl | otherInPool
    · exact absurd rfl differ
    · exact apart other otherInPool
  · rcases (joins other).mp otherMember with rfl | otherInPool
    · intro serial spent otherSpent
      exact apart tx inPool serial otherSpent spent
    · exact distinct tx inPool other otherInPool differ

/-- A connected block that is in conflict with no other zerocoin spend of the pool
leaves a pool that is clear of it. -/
theorem clearOf_of_removeForBlock
    {vtx : List CTransaction}
    (kept : pool.Kept)
    (conflictFree : (MempoolAction.removeForBlock vtx).ConflictFree txInToZerocoinSpend pool) :
    (CTxMemPool.removeForBlock vtx pool []).1.ClearOf txInToZerocoinSpend vtx := by
  intro tx member blockTx inBlock
  have clear := CTxMemPool.clear_of_removeForBlock vtx kept []
  have stayed := (CTxMemPool.closedUnderRemoval_forall (· ∈ pool.transactions)).removeForBlock
    vtx (fun _ inPool => inPool) [] tx member
  cases kind : tx.isZerocoinSpend with
  | true =>
    apply conflictFree.connected vtx rfl tx stayed kind _ blockTx inBlock
    intro other otherInBlock same
    exact (clear other otherInBlock tx member).1 same.symm
  | false =>
    refine ⟨?_, ?_⟩
    · intro serial spent
      rw [CTransaction.isZerocoinSpend_of_serial spent] at kind
      cases kind
    · intro outpoint named shared
      exact absurd named ((clear blockTx inBlock tx member).2 kind outpoint shared)

/-- In every run without conflicts that the code does not check for, no two transactions
of the pool spend the same serial, and after a connected block no transaction of the
pool spends a serial or names an outpoint that the block spends. -/
theorem mempool_serials_distinct
    {fSanityCheck : Bool} {trace : List MempoolAction} {pool : CTxMemPool}
    (run : (mempoolSystem fun pool action =>
      action.ConflictFree txInToZerocoinSpend pool).Run (.empty fSanityCheck) trace pool) :
    pool.SerialsDistinct txInToZerocoinSpend ∧
      ∀ vtx, trace.getLast? = some (.removeForBlock vtx) →
        pool.ClearOf txInToZerocoinSpend vtx := by
  refine ⟨(serialsDistinct_of_run run).2, ?_⟩
  intro vtx last
  cases run with
  | nil => cases last
  | snoc earlier step =>
    rw [List.getLast?_concat, Option.some.injEq] at last
    subst last
    obtain ⟨conflictFree, applied⟩ := step
    simp only [MempoolAction.apply, Option.some.injEq] at applied
    subst applied
    exact clearOf_of_removeForBlock (serialsDistinct_of_run earlier).1 conflictFree

end

/-- A zerocoin spend of a serial. -/
def serialTx (hash : Uint256) (serial : UInt8) : CTransaction where
  hash := hash
  nVersion := 1
  vin :=
    [{ prevout := .null, scriptSig := [Opcode.zerocoinSpend, serial], nSequence := 50 }]
  vout := [{ nValue := coin, scriptPubKey := [Opcode.op1] }]
  nLockTime := 0

/-- The pool with a transaction and a spend of one serial. -/
def mixedPool : CTxMemPool :=
  (acceptToMemoryPool oneCoinEnv oneCoinPool (serialTx 31 1) 0 bareChecks).2

theorem mempool_serials_distinct_mixed :
    let pool := (CTxMemPool.removeForBlock [firstOutputTx 25] mixedPool []).1
    pool.transactions = [serialTx 31 1] ∧
      pool.SerialsDistinct oneCoinLib.txInToZerocoinSpend ∧
      pool.ClearOf oneCoinLib.txInToZerocoinSpend [firstOutputTx 25] := by
  have ordinaryFree : (oneCoinAccepts (firstOutputTx 20)).ConflictFree
      oneCoinLib.txInToZerocoinSpend (.empty false) := by
    refine ⟨?_, ?_, ?_⟩
    · intro tx _ other member
      cases member
    · intro tx _ other member
      cases member
    · intro vtx connects
      cases connects
  have spendFree : (oneCoinAccepts (serialTx 31 1)).ConflictFree
      oneCoinLib.txInToZerocoinSpend oneCoinPool := by
    have transactions : oneCoinPool.transactions = [firstOutputTx 20] := by decide
    refine ⟨?_, ?_, ?_⟩
    · rintro tx ⟨env, nTime, checks, same, -⟩ other member _
      cases same
      rw [transactions, List.mem_singleton] at member
      subst member
      unfold CTxMemPool.Apart
      decide
    · rintro tx ⟨env, nTime, checks, same, -⟩ other member
      cases same
      rw [transactions, List.mem_singleton] at member
      subst member
      unfold SerialsApart
      decide
    · intro vtx connects
      cases connects
  have blockFree : (MempoolAction.removeForBlock [firstOutputTx 25]).ConflictFree
      oneCoinLib.txInToZerocoinSpend mixedPool := by
    have transactions : mixedPool.transactions = [firstOutputTx 20, serialTx 31 1] := by decide
    refine ⟨?_, ?_, ?_⟩
    · rintro tx ⟨env, nTime, checks, same, -⟩
      cases same
    · rintro tx ⟨env, nTime, checks, same, -⟩
      cases same
    · intro vtx connects tx member zerocoin _
      cases connects
      rw [transactions] at member
      simp only [List.mem_cons, List.not_mem_nil, or_false] at member
      rcases member with rfl | rfl
      · cases zerocoin
      · unfold NoConflict SerialsApart
        decide
  have ordinaryRun : (mempoolSystem fun pool action =>
      action.ConflictFree oneCoinLib.txInToZerocoinSpend pool).Run (.empty false)
      [oneCoinAccepts (firstOutputTx 20)] oneCoinPool :=
    .snoc .nil ⟨ordinaryFree, rfl⟩
  have spendRun : (mempoolSystem fun pool action =>
      action.ConflictFree oneCoinLib.txInToZerocoinSpend pool).Run (.empty false)
      [oneCoinAccepts (firstOutputTx 20), oneCoinAccepts (serialTx 31 1)] mixedPool :=
    ordinaryRun.snoc ⟨spendFree, rfl⟩
  have run : (mempoolSystem fun pool action =>
      action.ConflictFree oneCoinLib.txInToZerocoinSpend pool).Run (.empty false)
      [oneCoinAccepts (firstOutputTx 20), oneCoinAccepts (serialTx 31 1),
        .removeForBlock [firstOutputTx 25]]
      (CTxMemPool.removeForBlock [firstOutputTx 25] mixedPool []).1 :=
    spendRun.snoc ⟨blockFree, rfl⟩
  have distinct := mempool_serials_distinct run
  exact ⟨by decide, distinct.1, distinct.2 [firstOutputTx 25] rfl⟩

/-- The pool with one spend of a serial. -/
def oneSpendPool : CTxMemPool :=
  (acceptToMemoryPool oneCoinEnv (.empty false) (serialTx 31 1) 0 bareChecks).2

/-- The pool with two spends of one serial. -/
def twoSpendsPool : CTxMemPool :=
  (acceptToMemoryPool oneCoinEnv oneSpendPool (serialTx 32 1) 0 bareChecks).2

/-- Two spends of one serial are admitted, and after a block with the first the second
stays. -/
theorem mempool_serial_spent_twice :
    (mempoolSystem fun _ _ => True).Run (.empty false)
        [oneCoinAccepts (serialTx 31 1), oneCoinAccepts (serialTx 32 1)] twoSpendsPool ∧
      twoSpendsPool.transactions = [serialTx 31 1, serialTx 32 1] ∧
      ¬ twoSpendsPool.SerialsDistinct oneCoinLib.txInToZerocoinSpend ∧
      (CTxMemPool.removeForBlock [serialTx 31 1] twoSpendsPool []).1.transactions =
        [serialTx 32 1] ∧
      ¬ (CTxMemPool.removeForBlock [serialTx 31 1] twoSpendsPool []).1.ClearOf
        oneCoinLib.txInToZerocoinSpend [serialTx 31 1] := by
  have transactions : twoSpendsPool.transactions = [serialTx 31 1, serialTx 32 1] := by decide
  have left : (CTxMemPool.removeForBlock [serialTx 31 1] twoSpendsPool []).1.transactions =
      [serialTx 32 1] := by decide
  have first : (mempoolSystem fun _ _ => True).Run (.empty false)
      [oneCoinAccepts (serialTx 31 1)] oneSpendPool :=
    .snoc .nil ⟨trivial, rfl⟩
  refine ⟨first.snoc ⟨trivial, rfl⟩, transactions, ?_, left, ?_⟩
  · intro distinct
    have apart := distinct (serialTx 31 1) (by simp [transactions]) (serialTx 32 1)
      (by simp [transactions]) (by decide) 1 (by decide)
    exact apart (by decide)
  · intro clear
    have apart := (clear (serialTx 32 1) (by simp [left]) (serialTx 31 1) (by simp)).1 1
      (by decide)
    exact apart (by decide)

end ColossusCoin
