import ColossusCoin.Library.System
import ColossusCoin.Mempool.Admissible

/-!
# The records of the memory pool

The pool under admissions and removals in any order.  As long as no zerocoin spend
shares an outpoint with another transaction of the pool, the record of spent outpoints
is that of the inputs of the other transactions, no outpoint is spent twice, and the
total of the sizes is right.
-/

namespace ColossusCoin
namespace CTxMemPool

/-- A transaction of the pool that is no zerocoin spend names an outpoint, in the input
at a position. -/
structure Spends (pool : CTxMemPool) (inPoint : CInPoint) (outpoint : COutPoint) :
    Prop where
  member : inPoint.ptx ∈ pool.transactions
  ordinary : inPoint.ptx.isZerocoinSpend = false
  named : inPoint.ptx.prevouts[inPoint.n]? = some outpoint

/-- The sum of the sizes of the entries. -/
def sizes (pool : CTxMemPool) : Nat :=
  (pool.mapTx.entries.map fun entry => entry.2.nTxSize).sum

/-- The records of the pool are those of its transactions. -/
structure Consistent (pool : CTxMemPool) : Prop where
  recorded : ∀ outpoint inPoint,
    pool.mapNextTx outpoint = some inPoint ↔ pool.Spends inPoint outpoint
  spentOnce : ∀ tx ∈ pool.transactions, ∀ other ∈ pool.transactions, tx.hash ≠ other.hash →
    ∀ outpoint ∈ tx.prevouts, outpoint ∈ other.prevouts → outpoint.isNull = true
  counted : pool.totalTxSize = pool.sizes % 2 ^ 64

/-- Entries stand under their hashes, and the inputs of the transactions that are no
zerocoin spends are what is recorded. -/
structure Recorded (pool : CTxMemPool) : Prop where
  hashed : ∀ entry ∈ pool.mapTx.entries, entry.2.tx.hash = entry.1
  recorded : ∀ outpoint inPoint,
    pool.mapNextTx outpoint = some inPoint ↔ pool.Spends inPoint outpoint

/-- Two transactions share no outpoint, unless both are zerocoin spends and the
outpoint is null. -/
def Apart (tx other : CTransaction) : Prop :=
  ∀ outpoint ∈ tx.prevouts, outpoint ∈ other.prevouts →
    outpoint.isNull = true ∧ tx.isZerocoinSpend = true ∧ other.isZerocoinSpend = true

/-- What admissions and removals keep: entries stand under their hashes, their inputs
are recorded, they are apart from each other, and they are counted. -/
structure Kept (pool : CTxMemPool) : Prop where
  hashed : ∀ entry ∈ pool.mapTx.entries, entry.2.tx.hash = entry.1
  recorded : ∀ outpoint inPoint,
    pool.mapNextTx outpoint = some inPoint ↔ pool.Spends inPoint outpoint
  apart : ∀ tx ∈ pool.transactions, ∀ other ∈ pool.transactions, tx.hash ≠ other.hash →
    Apart tx other
  counted : pool.totalTxSize = pool.sizes % 2 ^ 64

variable {pool : CTxMemPool} {hash : Uint256}

theorem Kept.inputsRecorded
    (kept : pool.Kept) :
    pool.Recorded :=
  ⟨kept.hashed, kept.recorded⟩

theorem Kept.consistent
    (kept : pool.Kept) :
    pool.Consistent where
  recorded := kept.recorded
  spentOnce := fun tx member other otherMember differ outpoint named otherNamed =>
    (kept.apart tx member other otherMember differ outpoint named otherNamed).1
  counted := kept.counted

theorem kept_of_no_entries
    (entries : pool.mapTx = .empty)
    (records : pool.mapNextTx = fun _ => none)
    (total : pool.totalTxSize = 0) :
    pool.Kept := by
  have none_left : pool.transactions = [] := by simp [transactions, entries]
  refine ⟨by simp [entries], ?_, by simp [none_left], by simp [total, sizes, entries]⟩
  intro outpoint inPoint
  rw [records]
  constructor
  · intro recorded
    cases recorded
  · rintro ⟨member, -, -⟩
    simp [none_left] at member

theorem kept_empty (fSanityCheck : Bool) : (empty fSanityCheck).Kept :=
  kept_of_no_entries rfl rfl rfl

theorem kept_clear (pool : CTxMemPool) : pool.clear.Kept :=
  kept_of_no_entries rfl rfl rfl

/-- Recording distinct inputs adds them to what was recorded. -/
theorem recordInputs_eq_some_iff
    (tx : CTransaction)
    (distinct : (txins.map CTxIn.prevout).Nodup)
    (start : Nat) (mapNextTx : NextTxMap) (outpoint : COutPoint) (inPoint : CInPoint) :
    recordInputs tx txins start mapNextTx outpoint = some inPoint ↔
      (∃ i, (txins.map CTxIn.prevout)[i]? = some outpoint ∧ inPoint = ⟨tx, start + i⟩) ∨
        outpoint ∉ txins.map CTxIn.prevout ∧ mapNextTx outpoint = some inPoint := by
  induction txins generalizing start mapNextTx with
  | nil => simp [recordInputs]
  | cons txin rest ih =>
    rw [List.map_cons, List.nodup_cons] at distinct
    rw [recordInputs, ih distinct.2, List.map_cons, List.mem_cons, not_or]
    constructor
    · rintro (⟨i, named, rfl⟩ | ⟨absent, recorded⟩)
      · left
        refine ⟨i + 1, by simpa using named, ?_⟩
        rw [Nat.add_assoc, Nat.add_comm 1 i]
      · by_cases same : outpoint = txin.prevout
        · subst same
          rw [Function.update_self] at recorded
          left
          exact ⟨0, rfl, by simpa using recorded.symm⟩
        · rw [Function.update_of_ne same] at recorded
          exact Or.inr ⟨⟨same, absent⟩, recorded⟩
    · rintro (⟨i, named, rfl⟩ | ⟨⟨same, absent⟩, recorded⟩)
      · cases i with
        | zero =>
          rw [List.getElem?_cons_zero, Option.some.injEq] at named
          subst named
          right
          refine ⟨distinct.1, ?_⟩
          rw [Function.update_self, Nat.add_zero]
        | succ i =>
          left
          refine ⟨i, by simpa using named, ?_⟩
          rw [Nat.add_assoc, Nat.add_comm 1 i]
      · right
        refine ⟨absent, ?_⟩
        rw [Function.update_of_ne same, recorded]

theorem eraseInputs_apply
    (txins : List CTxIn) (mapNextTx : NextTxMap) (outpoint : COutPoint) :
    eraseInputs txins mapNextTx outpoint =
      if outpoint ∈ txins.map CTxIn.prevout then none else mapNextTx outpoint := by
  induction txins generalizing mapNextTx with
  | nil => simp [eraseInputs]
  | cons txin rest ih =>
    rw [eraseInputs, ih]
    by_cases same : outpoint = txin.prevout
    · simp [same]
    · simp [same]

/-! ## Entries that come and go -/

theorem mem_transactions_addUnchecked
    (fresh : pool.mapTx.get? entry.tx.hash = none) (tx : CTransaction) :
    tx ∈ (pool.addUnchecked entry.tx.hash entry).transactions ↔
      tx = entry.tx ∨ tx ∈ pool.transactions := by
  unfold transactions addUnchecked
  rw [((SortedMap.entries_insert_perm fresh entry).map fun e => e.2.tx).mem_iff, List.map_cons,
    List.mem_cons]

theorem sizes_addUnchecked
    (fresh : pool.mapTx.get? entry.tx.hash = none) :
    (pool.addUnchecked entry.tx.hash entry).sizes = entry.nTxSize + pool.sizes := by
  have mapped := (SortedMap.entries_insert_perm fresh entry).map fun e => e.2.nTxSize
  exact mapped.sum_eq

theorem sizes_removeEntry
    (present : pool.mapTx.get? hash = some entry) :
    pool.sizes = entry.nTxSize + (pool.removeEntry hash entry).sizes := by
  have mapped := (SortedMap.entries_erase_perm present).map fun e => e.2.nTxSize
  exact mapped.sum_eq

/-- A transaction that can join the pool keeps the records when it joins. -/
theorem Recorded.addUnchecked
    (records : pool.Recorded)
    (admissible : pool.Admissible entry.tx) :
    (pool.addUnchecked entry.tx.hash entry).Recorded := by
  have joins := mem_transactions_addUnchecked admissible.fresh
  refine ⟨?_, ?_⟩
  · intro current member
    rcases (SortedMap.mem_entries_insert _ _ _ _).mp member with rfl | ⟨-, inPool⟩
    · rfl
    · exact records.hashed current inPool
  · intro outpoint inPoint
    have spendsIff : (pool.addUnchecked entry.tx.hash entry).Spends inPoint outpoint ↔
        (inPoint.ptx = entry.tx ∧ entry.tx.isZerocoinSpend = false ∧
          entry.tx.prevouts[inPoint.n]? = some outpoint) ∨ pool.Spends inPoint outpoint := by
      constructor
      · rintro ⟨member, ordinary, named⟩
        rcases (joins _).mp member with same | inPool
        · rw [same] at ordinary named
          exact Or.inl ⟨same, ordinary, named⟩
        · exact Or.inr ⟨inPool, ordinary, named⟩
      · rintro (⟨same, ordinary, named⟩ | ⟨inPool, ordinary, named⟩)
        · exact ⟨(joins _).mpr (Or.inl same), by rw [same, ordinary], by rw [same, named]⟩
        · exact ⟨(joins _).mpr (Or.inr inPool), ordinary, named⟩
    rw [spendsIff, ← records.recorded]
    change (if entry.tx.isZerocoinSpend then pool.mapNextTx
      else recordInputs entry.tx entry.tx.vin 0 pool.mapNextTx) outpoint = some inPoint ↔ _
    cases kind : entry.tx.isZerocoinSpend with
    | true => simp
    | false =>
      rw [if_neg Bool.false_ne_true, recordInputs_eq_some_iff entry.tx (admissible.distinct kind)]
      constructor
      · rintro (⟨i, named, rfl⟩ | ⟨-, recorded⟩)
        · refine Or.inl ⟨rfl, rfl, ?_⟩
          rw [Nat.zero_add]
          exact named
        · exact Or.inr recorded
      · rintro (⟨same, -, named⟩ | recorded)
        · left
          refine ⟨inPoint.n, named, ?_⟩
          rw [← same, Nat.zero_add]
        · right
          refine ⟨?_, recorded⟩
          intro named
          rw [admissible.unrecorded kind outpoint named] at recorded
          cases recorded

/-- Admission keeps the records. -/
theorem Recorded.acceptToMemoryPool
    (records : pool.Recorded) (env : MempoolEnv) (tx : CTransaction) (nTime : Int)
    (checks : CheckState) :
    (ColossusCoin.acceptToMemoryPool env pool tx nTime checks).2.Recorded := by
  unfold ColossusCoin.acceptToMemoryPool
  dsimp only
  split_ifs with accepted
  · have admissible : pool.Admissible tx := @admissible_of_accept env pool tx nTime checks accepted
    exact @Recorded.addUnchecked pool (.ofTx tx _ nTime env.chainHeight) records admissible
  · exact records

/-- A transaction that can join the pool, and that is apart from those in it, keeps the
records when it joins. -/
theorem Kept.addUnchecked
    (kept : pool.Kept)
    (admissible : pool.Admissible entry.tx)
    (apart : ∀ other ∈ pool.transactions,
      entry.tx.isZerocoinSpend = true ∨ other.isZerocoinSpend = true → Apart entry.tx other) :
    (pool.addUnchecked entry.tx.hash entry).Kept := by
  have joins := mem_transactions_addUnchecked admissible.fresh
  have records := kept.inputsRecorded.addUnchecked admissible
  -- Two transactions that both record their inputs cannot share one.
  have allApart : ∀ other ∈ pool.transactions, Apart entry.tx other := by
    intro other member outpoint named otherNamed
    by_cases zerocoins : entry.tx.isZerocoinSpend = true ∨ other.isZerocoinSpend = true
    · exact apart other member zerocoins outpoint named otherNamed
    · rw [not_or, Bool.not_eq_true, Bool.not_eq_true] at zerocoins
      obtain ⟨i, inRange, atPosition⟩ := List.getElem_of_mem otherNamed
      have recorded := (kept.recorded outpoint ⟨other, i⟩).mpr
        ⟨member, zerocoins.2, List.getElem?_eq_some_iff.mpr ⟨inRange, atPosition⟩⟩
      rw [admissible.unrecorded zerocoins.1 outpoint named] at recorded
      cases recorded
  refine ⟨records.hashed, records.recorded, ?_, ?_⟩
  · intro tx member other otherMember differ
    rcases (joins _).mp member with rfl | inPool
    · rcases (joins _).mp otherMember with rfl | otherInPool
      · exact absurd rfl differ
      · exact allApart other otherInPool
    · rcases (joins _).mp otherMember with rfl | otherInPool
      · intro outpoint named otherNamed
        obtain ⟨null, first, second⟩ := allApart tx inPool outpoint otherNamed named
        exact ⟨null, second, first⟩
      · exact kept.apart tx inPool other otherInPool differ
  · rw [sizes_addUnchecked admissible.fresh]
    change (pool.totalTxSize + entry.nTxSize) % 2 ^ 64 = _
    rw [kept.counted, Nat.mod_add_mod, Nat.add_comm]

theorem Recorded.eq_of_hash_eq
    (records : pool.Recorded)
    (member : tx ∈ pool.transactions)
    (otherMember : other ∈ pool.transactions)
    (same : tx.hash = other.hash) :
    tx = other := by
  obtain ⟨⟨hash, entry⟩, inEntries, rfl⟩ := List.mem_map.mp member
  obtain ⟨⟨otherHash, otherEntry⟩, otherInEntries, rfl⟩ := List.mem_map.mp otherMember
  have sameKey : hash = otherHash :=
    (records.hashed _ inEntries).symm.trans (same.trans (records.hashed _ otherInEntries))
  rw [← SortedMap.get?_eq_some_iff] at inEntries otherInEntries
  rw [sameKey, otherInEntries, Option.some.injEq] at inEntries
  rw [inEntries]

theorem Recorded.eq_of_shared
    (records : pool.Recorded)
    (member : tx ∈ pool.transactions)
    (otherMember : other ∈ pool.transactions)
    (ordinary : tx.isZerocoinSpend = false)
    (otherOrdinary : other.isZerocoinSpend = false)
    (named : outpoint ∈ tx.prevouts)
    (otherNamed : outpoint ∈ other.prevouts) :
    tx = other := by
  obtain ⟨i, atPosition⟩ := List.mem_iff_getElem?.mp named
  obtain ⟨j, otherPosition⟩ := List.mem_iff_getElem?.mp otherNamed
  have recorded := (records.recorded outpoint ⟨tx, i⟩).mpr ⟨member, ordinary, atPosition⟩
  rw [(records.recorded outpoint ⟨other, j⟩).mpr ⟨otherMember, otherOrdinary, otherPosition⟩,
    Option.some.injEq, CInPoint.mk.injEq] at recorded
  exact recorded.1.symm

theorem mem_transactions_removeEntry
    (records : pool.Recorded) (tx : CTransaction) :
    tx ∈ (pool.removeEntry hash entry).transactions ↔
      tx ∈ pool.transactions ∧ tx.hash ≠ hash := by
  unfold transactions
  rw [List.mem_map, List.mem_map]
  constructor
  · rintro ⟨current, inErased, rfl⟩
    obtain ⟨differ, inEntries⟩ := (SortedMap.mem_entries_erase _ _ _).mp inErased
    refine ⟨⟨current, inEntries, rfl⟩, ?_⟩
    rw [records.hashed current inEntries]
    exact differ
  · rintro ⟨⟨current, inEntries, rfl⟩, differ⟩
    rw [records.hashed current inEntries] at differ
    exact ⟨current, (SortedMap.mem_entries_erase _ _ _).mpr ⟨differ, inEntries⟩, rfl⟩

/-- Taking an entry out keeps the records, if it names no outpoint that is recorded for
another transaction. -/
theorem Recorded.removeEntry
    (records : pool.Recorded)
    (present : pool.mapTx.get? hash = some entry)
    (others : ∀ tx ∈ pool.transactions, tx.hash ≠ hash → tx.isZerocoinSpend = false →
      ∀ outpoint ∈ tx.prevouts, outpoint ∉ entry.tx.prevouts) :
    (pool.removeEntry hash entry).Recorded := by
  have stays := @mem_transactions_removeEntry pool hash entry records
  have sameHash : entry.tx.hash = hash :=
    records.hashed (hash, entry) ((SortedMap.get?_eq_some_iff _ _ _).mp present)
  have member : entry.tx ∈ pool.transactions :=
    List.mem_map.mpr ⟨(hash, entry), (SortedMap.get?_eq_some_iff _ _ _).mp present, rfl⟩
  refine ⟨?_, ?_⟩
  · intro current inErased
    exact records.hashed current ((SortedMap.mem_entries_erase _ _ _).mp inErased).2
  · intro outpoint inPoint
    have erased : (pool.removeEntry hash entry).mapNextTx outpoint =
        if outpoint ∈ entry.tx.prevouts then none else pool.mapNextTx outpoint :=
      eraseInputs_apply entry.tx.vin pool.mapNextTx outpoint
    rw [erased]
    constructor
    · intro recorded
      split_ifs at recorded with named
      obtain ⟨inPool, ordinary, atPosition⟩ := (records.recorded outpoint inPoint).mp recorded
      refine ⟨(stays _).mpr ⟨inPool, ?_⟩, ordinary, atPosition⟩
      intro same
      rw [records.eq_of_hash_eq inPool member (same.trans sameHash.symm)] at atPosition
      exact named (List.mem_of_getElem? atPosition)
    · rintro ⟨inErased, ordinary, atPosition⟩
      obtain ⟨inPool, differ⟩ := (stays _).mp inErased
      rw [if_neg (others _ inPool differ ordinary outpoint (List.mem_of_getElem? atPosition))]
      exact (records.recorded outpoint inPoint).mpr ⟨inPool, ordinary, atPosition⟩

/-- Taking an entry out keeps the records of the others. -/
theorem Kept.removeEntry
    (kept : pool.Kept)
    (present : pool.mapTx.get? hash = some entry) :
    (pool.removeEntry hash entry).Kept := by
  have stays := @mem_transactions_removeEntry pool hash entry kept.inputsRecorded
  have sameHash : entry.tx.hash = hash :=
    kept.hashed (hash, entry) ((SortedMap.get?_eq_some_iff _ _ _).mp present)
  have member : entry.tx ∈ pool.transactions :=
    List.mem_map.mpr ⟨(hash, entry), (SortedMap.get?_eq_some_iff _ _ _).mp present, rfl⟩
  have records : (pool.removeEntry hash entry).Recorded := by
    apply kept.inputsRecorded.removeEntry present
    intro tx inPool differ ordinary outpoint named shared
    rw [← sameHash] at differ
    have apart := kept.apart tx inPool entry.tx member differ outpoint named shared
    rw [ordinary] at apart
    cases apart.2.1
  refine ⟨records.hashed, records.recorded, ?_, ?_⟩
  · intro tx inErased other otherInErased differ
    exact kept.apart tx ((stays tx).mp inErased).1 other ((stays other).mp otherInErased).1 differ
  · have total := kept.counted
    rw [sizes_removeEntry present] at total
    change (pool.totalTxSize + (2 ^ 64 - entry.nTxSize % 2 ^ 64)) % 2 ^ 64 = _
    omega

/-- Taking entries out preserves a property of pools. -/
def ClosedUnderRemoval (Holds : CTxMemPool → Prop) : Prop :=
  ∀ pool hash entry, Holds pool → pool.mapTx.get? hash = some entry →
    Holds (pool.removeEntry hash entry)

namespace ClosedUnderRemoval

theorem removeLoop
    (closed : ClosedUnderRemoval Holds) (fRecursive : Bool)
    (holds : Holds pool) (fuel : Nat) (queue : List Uint256) (removed : List CTransaction) :
    Holds (CTxMemPool.removeLoop fRecursive fuel queue pool removed).1 := by
  induction fuel generalizing pool queue removed with
  | zero => exact holds
  | succ fuel ih =>
    rw [CTxMemPool.removeLoop]
    cases popped : pool.popPresent queue with
    | none => exact holds
    | some outcome =>
      obtain ⟨⟨hash, entry⟩, rest⟩ := outcome
      apply ih
      exact closed pool hash entry holds (popPresent_eq_some popped)

theorem remove
    (closed : ClosedUnderRemoval Holds)
    (holds : Holds pool) (tx : CTransaction) (removed : List CTransaction)
    (fRecursive : Bool) :
    Holds (pool.remove tx removed fRecursive).1 :=
  closed.removeLoop fRecursive holds _ _ _

theorem removeConflictsLoop
    (closed : ClosedUnderRemoval Holds) (tx : CTransaction) (txins : List CTxIn)
    (holds : Holds pool) (removed : List CTransaction) :
    Holds (CTxMemPool.removeConflictsLoop tx txins pool removed).1 := by
  induction txins generalizing pool removed with
  | nil => exact holds
  | cons txin rest ih =>
    rw [CTxMemPool.removeConflictsLoop]
    split
    · exact ih holds removed
    · split_ifs
      · exact ih holds removed
      · exact ih (closed.remove holds _ _ _) _

theorem removeConflicts
    (closed : ClosedUnderRemoval Holds)
    (holds : Holds pool) (tx : CTransaction) (removed : List CTransaction) :
    Holds (pool.removeConflicts tx removed).1 :=
  closed.removeConflictsLoop tx tx.vin holds removed

theorem removeForBlock
    (closed : ClosedUnderRemoval Holds) (vtx : List CTransaction)
    (holds : Holds pool) (conflicts : List CTransaction) :
    Holds (CTxMemPool.removeForBlock vtx pool conflicts).1 := by
  induction vtx generalizing pool conflicts with
  | nil => exact holds
  | cons tx rest ih =>
    rw [CTxMemPool.removeForBlock]
    apply ih
    exact closed.removeConflicts (closed.remove holds tx [] false) tx conflicts

theorem foldl_remove
    (closed : ClosedUnderRemoval Holds)
    (holds : Holds pool) (roots : List CTransaction) :
    Holds (roots.foldl (fun current root => (current.remove root [] true).1) pool) := by
  induction roots generalizing pool with
  | nil => exact holds
  | cons root rest ih =>
    rw [List.foldl_cons]
    exact ih (closed.remove holds root [] true)

theorem removeCoinbaseSpends
    (closed : ClosedUnderRemoval Holds)
    (holds : Holds pool)
    (removes : CTxMemPool.removeCoinbaseSpends params pool pcoins nMemPoolHeight = some next) :
    Holds next := by
  obtain ⟨transactionsToRemove, -, rfl⟩ := Option.map_eq_some_iff.mp removes
  exact closed.foldl_remove holds transactionsToRemove

end ClosedUnderRemoval

theorem closedUnderRemoval_kept : ClosedUnderRemoval Kept :=
  fun _ _ _ kept present => kept.removeEntry present

end CTxMemPool

/-- What a node does to its memory pool. -/
inductive MempoolAction where
  | acceptToMemoryPool (env : MempoolEnv) (tx : CTransaction) (nTime : Int)
      (checks : CheckState)
  | remove (tx : CTransaction) (fRecursive : Bool)
  | removeConflicts (tx : CTransaction)
  | removeForBlock (vtx : List CTransaction)
  | removeCoinbaseSpends (params : CChainParams) (pcoins : CCoinsViewCache)
      (nMemPoolHeight : Nat)
  | clear

namespace MempoolAction

/-- The pool after an action, `none` where an assertion fails. -/
def apply (pool : CTxMemPool) : MempoolAction → Option CTxMemPool
  | .acceptToMemoryPool env tx nTime checks =>
    some (ColossusCoin.acceptToMemoryPool env pool tx nTime checks).2
  | .remove tx fRecursive => some (pool.remove tx [] fRecursive).1
  | .removeConflicts tx => some (pool.removeConflicts tx []).1
  | .removeForBlock vtx => some (CTxMemPool.removeForBlock vtx pool []).1
  | .removeCoinbaseSpends params pcoins nMemPoolHeight =>
    pool.removeCoinbaseSpends params pcoins nMemPoolHeight
  | .clear => some pool.clear

/-- The action admits a transaction. -/
def Admits (pool : CTxMemPool) (action : MempoolAction) (tx : CTransaction) : Prop :=
  ∃ env nTime checks, action = .acceptToMemoryPool env tx nTime checks ∧
    (ColossusCoin.acceptToMemoryPool env pool tx nTime checks).1.1 = .accept

/-- A transaction that the action admits is apart from those of the pool, when one of
the two is a zerocoin spend. -/
def KeepsApart (pool : CTxMemPool) (action : MempoolAction) : Prop :=
  ∀ tx, action.Admits pool tx → ∀ other ∈ pool.transactions,
    tx.isZerocoinSpend = true ∨ other.isZerocoinSpend = true → CTxMemPool.Apart tx other

end MempoolAction

/-- The memory pool, with the actions that are permitted. -/
def mempoolSystem (permitted : CTxMemPool → MempoolAction → Prop) :
    LabelledSystem CTxMemPool MempoolAction where
  Step pool action next := permitted pool action ∧ action.apply pool = some next

theorem MempoolAction.preserves
    (closed : CTxMemPool.ClosedUnderRemoval Holds)
    (cleared : ∀ pool : CTxMemPool, Holds pool.clear)
    {action : MempoolAction}
    (holds : Holds pool)
    (joins : ∀ entry : CTxMemPoolEntry, action.Admits pool entry.tx →
      Holds (pool.addUnchecked entry.tx.hash entry))
    (applied : action.apply pool = some next) :
    Holds next := by
  cases action with
  | acceptToMemoryPool env tx nTime checks =>
    simp only [apply, Option.some.injEq] at applied
    subst applied
    unfold ColossusCoin.acceptToMemoryPool
    dsimp only
    split_ifs with accepted
    · exact joins (.ofTx tx _ nTime env.chainHeight) ⟨env, nTime, checks, rfl, accepted⟩
    · exact holds
  | remove tx fRecursive =>
    simp only [apply, Option.some.injEq] at applied
    subst applied
    exact closed.remove holds tx [] fRecursive
  | removeConflicts tx =>
    simp only [apply, Option.some.injEq] at applied
    subst applied
    exact closed.removeConflicts holds tx []
  | removeForBlock vtx =>
    simp only [apply, Option.some.injEq] at applied
    subst applied
    exact closed.removeForBlock vtx holds []
  | removeCoinbaseSpends params pcoins nMemPoolHeight =>
    exact closed.removeCoinbaseSpends holds applied
  | clear =>
    simp only [apply, Option.some.injEq] at applied
    subst applied
    exact cleared pool

theorem MempoolAction.Admits.admissible
    {action : MempoolAction}
    (admits : action.Admits pool tx) :
    pool.Admissible tx := by
  obtain ⟨env, nTime, checks, -, accepted⟩ := admits
  exact admissible_of_accept accepted

/-- While admissions keep zerocoin spends apart from the other transactions, the records
are kept. -/
theorem kept_of_run
    {pool : CTxMemPool}
    (run : (mempoolSystem fun pool action => action.KeepsApart pool).Run
      (.empty fSanityCheck) trace pool) :
    pool.Kept := by
  apply run.invariant (CTxMemPool.kept_empty fSanityCheck)
  rintro current action next kept ⟨keepsApart, applied⟩
  apply action.preserves CTxMemPool.closedUnderRemoval_kept CTxMemPool.kept_clear kept _ applied
  intro entry admits
  exact kept.addUnchecked admits.admissible (keepsApart entry.tx admits)

/-- In every run from the empty pool in which each admitted zerocoin spend is apart from
the other transactions of the pool, the records of the pool are those of its
transactions. -/
theorem mempool_consistent
    {fSanityCheck : Bool} {trace : List MempoolAction} {pool : CTxMemPool}
    (run : (mempoolSystem fun pool action => action.KeepsApart pool).Run
      (.empty fSanityCheck) trace pool) :
    pool.Consistent :=
  (kept_of_run run).consistent

/-- Spends decode to a serial, with the smallest denomination. -/
def oneCoinLib : ZerocoinLib :=
  { bareLib with
    txInToZerocoinSpend := fun txin =>
      match txin.scriptSig with
      | [_, serial] => some ⟨serial.toNat, .zqOne, 0, 0⟩
      | _ => none }

/-- A node on the main network, with two unspent outputs of one transaction, on which
the scripts of ordinary inputs verify. -/
def oneCoinEnv : MempoolEnv where
  connect :=
    { bareEnv with
      context := { bareContext with lib := oneCoinLib }
      verifyScript := fun _ _ _ _ => none }
  bans := .initial
  addresses := { extractAddress := fun _ => none, pastEnd := fun _ _ => [] }
  store :=
    { fTxIndex := false
      readTxIndex := fun _ => none
      readTransaction := fun _ => none
      pcoinsTip := twoOutputsView
      chainActive := fun _ => none
      readBlockFromDisk := fun _ => none }
  chainHeight := 600000
  activeHeight := fun _ => none
  requireStandard := true
  nonstandardReason := fun _ => none
  areInputsStandard := fun _ _ => true
  feePolicy := fun _ _ => none
  insaneFee := fun _ _ => false
  verifyStandard := fun tx i _ =>
    if (tx.vin[i]?.any fun txin => txin.scriptSig.isZerocoinSpend) then
      some "Opcode missing or not understood"
    else none
  verifyStandard_isSome := by
    intro tx i coins txin atPosition zerocoin
    simp [atPosition, zerocoin]

/-- A transaction that spends the first of the two outputs. -/
def firstOutputTx (hash : Uint256) : CTransaction where
  hash := hash
  nVersion := 1
  vin := [{ prevout := ⟨3, 0⟩, scriptSig := [], nSequence := 0 }]
  vout := [{ nValue := coin, scriptPubKey := [Opcode.op1] }]
  nLockTime := 0

/-- A zerocoin spend whose second input names that output too. -/
def overlappingSpend : CTransaction where
  hash := 21
  nVersion := 1
  vin :=
    [ { prevout := .null, scriptSig := [Opcode.zerocoinSpend, 1], nSequence := 50 },
      { prevout := ⟨3, 0⟩, scriptSig := [Opcode.zerocoinSpend, 2], nSequence := 50 } ]
  vout := [{ nValue := coin, scriptPubKey := [Opcode.op1] }]
  nLockTime := 0

/-- The admission of a transaction by that node. -/
def oneCoinAccepts (tx : CTransaction) : MempoolAction :=
  .acceptToMemoryPool oneCoinEnv tx 0 bareChecks

/-- The pool with one of these transactions. -/
def oneCoinPool : CTxMemPool :=
  (acceptToMemoryPool oneCoinEnv (.empty false) (firstOutputTx 20) 0 bareChecks).2

theorem mempool_consistent_oneCoin :
    (firstOutputTx 20 ∈ oneCoinPool.transactions) ∧ oneCoinPool.Consistent := by
  refine ⟨by decide, ?_⟩
  have run : (mempoolSystem fun pool action => action.KeepsApart pool).Run
      (.empty false) [oneCoinAccepts (firstOutputTx 20)] oneCoinPool := by
    apply LabelledSystem.Run.snoc .nil
    refine ⟨?_, rfl⟩
    intro tx _ other member
    cases member
  exact mempool_consistent run

/-- The pool after a zerocoin spend that names the same output in its second input. -/
def overlappingPool : CTxMemPool :=
  (acceptToMemoryPool oneCoinEnv oneCoinPool overlappingSpend 0 bareChecks).2

/-- The pool after a block with the zerocoin spend. -/
def connectedPool : CTxMemPool :=
  (CTxMemPool.removeForBlock [overlappingSpend] overlappingPool []).1

/-- The pool after another transaction that spends the output. -/
def doubleSpendPool : CTxMemPool :=
  (acceptToMemoryPool oneCoinEnv connectedPool (firstOutputTx 22) 0 bareChecks).2

/-- The zerocoin spend takes the record of the ordinary transaction with it when it
leaves, and a second transaction that spends the same output is admitted. -/
theorem mempool_inconsistent_doubleSpend :
    (mempoolSystem fun _ _ => True).Run (.empty false)
        [ oneCoinAccepts (firstOutputTx 20), oneCoinAccepts overlappingSpend,
          .removeForBlock [overlappingSpend], oneCoinAccepts (firstOutputTx 22) ]
        doubleSpendPool ∧
      doubleSpendPool.transactions = [firstOutputTx 20, firstOutputTx 22] ∧
      ¬ doubleSpendPool.Consistent := by
  have first : (mempoolSystem fun _ _ => True).Run (.empty false)
      [oneCoinAccepts (firstOutputTx 20)] oneCoinPool :=
    .snoc .nil ⟨trivial, rfl⟩
  have second : (mempoolSystem fun _ _ => True).Run (.empty false)
      [oneCoinAccepts (firstOutputTx 20), oneCoinAccepts overlappingSpend]
      overlappingPool :=
    first.snoc ⟨trivial, rfl⟩
  have third : (mempoolSystem fun _ _ => True).Run (.empty false)
      [oneCoinAccepts (firstOutputTx 20), oneCoinAccepts overlappingSpend,
        .removeForBlock [overlappingSpend]] connectedPool :=
    second.snoc ⟨trivial, rfl⟩
  have transactions : doubleSpendPool.transactions = [firstOutputTx 20, firstOutputTx 22] := by
    decide
  refine ⟨third.snoc ⟨trivial, rfl⟩, transactions, ?_⟩
  intro consistent
  have twice := consistent.spentOnce (firstOutputTx 20) (by simp [transactions])
    (firstOutputTx 22) (by simp [transactions]) (by decide) ⟨3, 0⟩ (by decide) (by decide)
  cases twice

end ColossusCoin
