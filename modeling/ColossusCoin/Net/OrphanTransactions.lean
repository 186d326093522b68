import ColossusCoin.Library.Loops
import ColossusCoin.Library.ReverseIndex
import ColossusCoin.Library.System
import ColossusCoin.Net.BlocksInFlight

/-!
# Orphan transactions

Transactions that wait for a parent, under their hashes, and the hashes of those that wait for each
parent.  The two maps stay inverse to each other whatever is added, erased and evicted.
-/

namespace ColossusCoin

open Loops ReverseIndex

namespace OrphanTransactions

/-- No orphans. -/
def empty : OrphanTransactions where
  mapOrphanTransactions := .empty
  mapOrphanTransactionsByPrev := .empty

/-- The transactions whose outputs the inputs spend, in their order. -/
def parents (tx : CTransaction) : List Uint256 :=
  tx.vin.map fun txin => txin.prevout.hash

def addOrphanTx (orphans : OrphanTransactions) (tx : CTransaction) (peer : NodeId) :
    OrphanTransactions × Bool :=
  let hash := tx.hash
  if orphans.mapOrphanTransactions.contains hash then (orphans, false)
  else
    let sz := tx.getSerializeSize % 2 ^ 32
    if 5000 < sz then (orphans, false)
    else
      ({ mapOrphanTransactions := orphans.mapOrphanTransactions.insert hash ⟨tx, peer⟩
         mapOrphanTransactionsByPrev :=
           (parents tx).foldl (file hash) orphans.mapOrphanTransactionsByPrev }, true)

/-- `lower_bound`, or the first entry where there is none. -/
def orphanFrom (orphans : OrphanTransactions) (randomhash : Uint256) :
    Option (Uint256 × COrphanTx) :=
  match orphans.mapOrphanTransactions.entries.find? fun entry => randomhash ≤ entry.1 with
  | some entry => some entry
  | none => orphans.mapOrphanTransactions.entries.head?

/-- Evict the orphan at a random place. -/
def evict (orphans : OrphanTransactions) (randomhash : Uint256) : OrphanTransactions :=
  match orphans.orphanFrom randomhash with
  | none => orphans
  | some entry => orphans.eraseOrphanTx entry.1

/-- `LimitOrphanTxSize`, with the random hashes that it draws. -/
def limitOrphanTxSize (nMaxOrphans : Nat) (getRandHash : Nat → Uint256)
    (orphans : OrphanTransactions) (fuel : Nat) : Option (OrphanTransactions × Nat) :=
  let again := fun state : OrphanTransactions × Nat =>
    decide (nMaxOrphans < state.1.mapOrphanTransactions.size)
  doWhile (fun state =>
    if again state then (state.1.evict (getRandHash state.2), state.2 + 1) else state)
    again fuel (orphans, 0) >>= fun state => some (state.1, state.2 % 2 ^ 32)

end OrphanTransactions

/-- What is done with the orphans. -/
inductive OrphanAction
  | add (tx : CTransaction) (peer : NodeId)
  | erase (hash : Uint256)
  | eraseFor (peer : NodeId)
  | limit (nMaxOrphans : Nat) (getRandHash : Nat → Uint256)

/-- The orphans under all actions. -/
def orphanSystem : LabelledSystem OrphanTransactions OrphanAction where
  Step orphans action next :=
    match action with
    | .add tx peer => next = (orphans.addOrphanTx tx peer).1
    | .erase hash => next = orphans.eraseOrphanTx hash
    | .eraseFor peer => next = orphans.eraseOrphansFor peer
    | .limit nMaxOrphans getRandHash =>
      ∃ nEvicted, Ends (orphans.limitOrphanTxSize nMaxOrphans getRandHash) (next, nEvicted)

namespace OrphanTransactions

/-- The maps are inverse to each other. -/
structure Consistent (orphans : OrphanTransactions) : Prop where
  named : ∀ hash orphan, orphans.mapOrphanTransactions.get? hash = some orphan →
    orphan.tx.hash = hash
  filed : ∀ parent hash,
    hash ∈ listed orphans.mapOrphanTransactionsByPrev parent ↔
      ∃ orphan, orphans.mapOrphanTransactions.get? hash = some orphan ∧ parent ∈ parents orphan.tx
  occupied : Occupied orphans.mapOrphanTransactionsByPrev

variable {orphans : OrphanTransactions}

theorem erasePrev_eq_strike
    (hash : Uint256)
    (index : Index Uint256 Uint256)
    (txin : CTxIn) :
    erasePrev hash index txin = strike hash index txin.prevout.hash := by
  rw [erasePrev, strike]
  cases index.get? txin.prevout.hash with
  | none => rfl
  | some hashes => exact if_congr Iff.rfl rfl rfl

theorem foldl_erasePrev
    (hash : Uint256)
    (tx : CTransaction)
    (index : Index Uint256 Uint256) :
    tx.vin.foldl (erasePrev hash) index = (parents tx).foldl (strike hash) index := by
  rw [parents, List.foldl_map]
  congr 1
  funext index txin
  exact erasePrev_eq_strike hash index txin

theorem consistent_empty : empty.Consistent where
  named := fun hash orphan found => by cases found
  filed := fun parent hash => by
    constructor
    · intro member
      exact absurd member (Finset.notMem_empty hash)
    · rintro ⟨_, found, _⟩
      cases found
  occupied := fun target items found => by cases found

section

variable (consistent : orphans.Consistent)
include consistent

theorem consistent_addOrphanTx
    (tx : CTransaction)
    (peer : NodeId) :
    (orphans.addOrphanTx tx peer).1.Consistent := by
  unfold addOrphanTx
  dsimp only
  split_ifs with known large
  · exact consistent
  · exact consistent
  · have fresh : orphans.mapOrphanTransactions.get? tx.hash = none := by
      rw [SortedMap.contains, Bool.not_eq_true, Option.isSome_eq_false_iff,
        Option.isNone_iff_eq_none] at known
      exact known
    refine { named := ?_, filed := ?_, occupied := ?_ }
    · intro hash orphan found
      rw [SortedMap.get?_insert] at found
      split_ifs at found with same
      · rw [← Option.some.inj found, same]
      · exact consistent.named hash orphan found
    · intro parent hash
      rw [mem_listed_foldl_file, consistent.filed, SortedMap.get?_insert]
      split_ifs with same
      · rw [same, fresh]
        constructor
        · rintro (⟨_, found, _⟩ | ⟨_, names⟩)
          · cases found
          · exact ⟨_, rfl, names⟩
        · rintro ⟨orphan, found, names⟩
          rw [← Option.some.inj found] at names
          exact Or.inr ⟨rfl, names⟩
      · rw [iff_false_intro same, false_and, or_false]
    · exact occupied_foldl (fun _ _ => occupied_file) _ consistent.occupied

theorem consistent_eraseOrphanTx
    (hash : Uint256) :
    (orphans.eraseOrphanTx hash).Consistent := by
  unfold eraseOrphanTx
  cases found : orphans.mapOrphanTransactions.get? hash with
  | none => exact consistent
  | some orphan =>
    dsimp only
    rw [foldl_erasePrev]
    refine { named := ?_, filed := ?_, occupied := ?_ }
    · intro other orphan found
      exact consistent.named other orphan (SortedMap.get?_of_erase found)
    · intro parent other
      rw [mem_listed_foldl_strike, consistent.filed, SortedMap.get?_erase]
      split_ifs with same
      · rw [same, found]
        constructor
        · rintro ⟨⟨other, here, names⟩, apart⟩
          rw [← Option.some.inj here] at names
          exact absurd ⟨rfl, names⟩ apart
        · rintro ⟨_, none, _⟩
          cases none
      · rw [iff_false_intro same, false_and, not_false_eq_true, and_true]
    · exact occupied_foldl (fun _ _ => occupied_strike) _ consistent.occupied

theorem consistent_eraseOrphansFor
    (peer : NodeId) :
    (orphans.eraseOrphansFor peer).Consistent := by
  unfold eraseOrphansFor
  generalize orphans.mapOrphanTransactions.entries.filter _ = erased
  induction erased generalizing orphans with
  | nil => exact consistent
  | cons entry rest ih =>
    exact ih (consistent_eraseOrphanTx consistent entry.2.tx.hash)

theorem consistent_evict
    (randomhash : Uint256) :
    (orphans.evict randomhash).Consistent := by
  rw [evict]
  cases orphans.orphanFrom randomhash with
  | none => exact consistent
  | some entry => exact consistent_eraseOrphanTx consistent entry.1

end

/-- Where there is an orphan, one is found. -/
theorem orphanFrom_mem
    (nonempty : 0 < orphans.mapOrphanTransactions.size)
    (randomhash : Uint256) :
    ∃ entry ∈ orphans.mapOrphanTransactions.entries,
      orphans.orphanFrom randomhash = some entry := by
  rw [orphanFrom]
  cases found : orphans.mapOrphanTransactions.entries.find? fun entry => randomhash ≤ entry.1 with
  | some entry => exact ⟨entry, List.mem_of_find?_eq_some found, rfl⟩
  | none =>
    have first : orphans.mapOrphanTransactions.entries.head? =
        some (orphans.mapOrphanTransactions.entries.head (List.length_pos_iff.mp nonempty)) :=
      List.head?_eq_some_head _
    exact ⟨_, List.head_mem _, first⟩

theorem size_evict_lt
    (nonempty : 0 < orphans.mapOrphanTransactions.size)
    (randomhash : Uint256) :
    (orphans.evict randomhash).mapOrphanTransactions.size < orphans.mapOrphanTransactions.size := by
  obtain ⟨entry, member, found⟩ := orphanFrom_mem nonempty randomhash
  have here := (SortedMap.get?_eq_some_iff _ entry.1 entry.2).mpr member
  rw [evict, found]
  dsimp only
  rw [eraseOrphanTx, here]
  exact SortedMap.size_erase_lt here

/-- Eviction ends, with no more orphans than requested. -/
theorem yields_limitOrphanTxSize
    (consistent : orphans.Consistent)
    (nMaxOrphans : Nat)
    (getRandHash : Nat → Uint256) :
    Yields (orphans.limitOrphanTxSize nMaxOrphans getRandHash) fun result =>
      result.1.Consistent ∧ result.1.mapOrphanTransactions.size ≤ nMaxOrphans := by
  refine Yields.bind (yields_doWhile_guarded (fun state => state.1.Consistent)
    (fun state => state.1.mapOrphanTransactions.size) ?_ consistent) ?_
  · rintro ⟨orphans, nEvicted⟩ holds more
    have nonempty : 0 < orphans.mapOrphanTransactions.size :=
      Nat.lt_of_le_of_lt (Nat.zero_le _) (of_decide_eq_true more)
    exact ⟨consistent_evict holds _, size_evict_lt nonempty _⟩
  · rintro state ⟨holds, stopped⟩
    exact yields_some ⟨holds, Nat.not_lt.mp (of_decide_eq_false stopped)⟩

theorem consistent_step
    (consistent : orphans.Consistent)
    (step : orphanSystem.Step orphans action next) :
    next.Consistent := by
  cases action with
  | add tx peer =>
    rw [step]
    exact consistent_addOrphanTx consistent tx peer
  | erase hash =>
    rw [step]
    exact consistent_eraseOrphanTx consistent hash
  | eraseFor peer =>
    rw [step]
    exact consistent_eraseOrphansFor consistent peer
  | limit nMaxOrphans getRandHash =>
    obtain ⟨nEvicted, ends⟩ := step
    obtain ⟨result, endsKept, kept, _⟩ :=
      yields_limitOrphanTxSize consistent nMaxOrphans getRandHash
    obtain rfl := ends.unique endsKept
    exact kept


/-- After every sequence of actions: a hash is filed under a parent exactly if it is the hash of an
orphan with an input that spends an output of the parent, no parent has an empty entry, and
eviction ends with no more orphans than requested. -/
theorem orphan_maps_inverse
    {trace : List OrphanAction}
    {orphans : OrphanTransactions}
    (run : orphanSystem.Run .empty trace orphans) :
    (∀ parent hash,
      hash ∈ listed orphans.mapOrphanTransactionsByPrev parent ↔
        ∃ orphan, orphans.mapOrphanTransactions.get? hash = some orphan ∧
          ∃ txin ∈ orphan.tx.vin, txin.prevout.hash = parent) ∧
      (∀ parent hashes, orphans.mapOrphanTransactionsByPrev.get? parent = some hashes →
        hashes ≠ ∅) ∧
      ∀ nMaxOrphans getRandHash, ∃ next nEvicted,
        Ends (orphans.limitOrphanTxSize nMaxOrphans getRandHash) (next, nEvicted) ∧
          next.mapOrphanTransactions.size ≤ nMaxOrphans := by
  have consistent : orphans.Consistent := run.invariant consistent_empty consistent_step
  refine ⟨?_, consistent.occupied, ?_⟩
  · intro parent hash
    rw [consistent.filed]
    simp [parents]
  · intro nMaxOrphans getRandHash
    obtain ⟨⟨next, nEvicted⟩, ends, _, limited⟩ :=
      yields_limitOrphanTxSize consistent nMaxOrphans getRandHash
    exact ⟨next, nEvicted, ends, limited⟩

/-- An orphan that spends two outputs of one parent and one of another. -/
def threeInputs : CTransaction where
  hash := 10
  nVersion := 1
  vin := [{ prevout := ⟨3, 0⟩, scriptSig := [], nSequence := 0 },
    { prevout := ⟨4, 0⟩, scriptSig := [], nSequence := 0 },
    { prevout := ⟨3, 1⟩, scriptSig := [], nSequence := 0 }]
  vout := []
  nLockTime := 0

theorem orphan_maps_inverse_threeInputs :
    ∃ orphans, orphanSystem.Run .empty [.add threeInputs 7] orphans ∧
      orphans.mapOrphanTransactions.size = 1 ∧
      ∀ parent hash,
        hash ∈ listed orphans.mapOrphanTransactionsByPrev parent ↔
          ∃ orphan, orphans.mapOrphanTransactions.get? hash = some orphan ∧
            ∃ txin ∈ orphan.tx.vin, txin.prevout.hash = parent := by
  have run : orphanSystem.Run .empty [.add threeInputs 7] (empty.addOrphanTx threeInputs 7).1 :=
    .snoc .nil rfl
  exact ⟨_, run, by decide, (orphan_maps_inverse run).1⟩

end OrphanTransactions

end ColossusCoin
