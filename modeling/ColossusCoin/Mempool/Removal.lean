import ColossusCoin.Library.Worklist
import ColossusCoin.Mempool.Consistency

/-!
# What a recursive removal takes from the memory pool

A recursive removal walks from a transaction to those that spend its outputs, along
records that it erases on its way.  From a pool whose records are those of its
transactions it takes the transaction and its descendants, each of them once.  A zerocoin
spend records no input but erases the records of all of them: where one of these is of
another entry, that entry loses it, unless it goes too.
-/

namespace ColossusCoin
namespace CTxMemPool

/-- The queue with which `remove` begins. -/
def txToRemove (pool : CTxMemPool) (origTx : CTransaction) (fRecursive : Bool) :
    List Uint256 :=
  origTx.hash ::
    if fRecursive && !pool.contains origTx.hash then pool.spenders origTx.hash origTx
    else []

/-- The loop of `remove` runs until its queue is empty: from a queue, a pool and a list of
removed transactions to the pool and the list that it leaves. -/
inductive RemoveRun (fRecursive : Bool) :
    List Uint256 → CTxMemPool → List CTransaction → CTxMemPool × List CTransaction → Prop
  | done {pool : CTxMemPool} {removed : List CTransaction} :
      RemoveRun fRecursive [] pool removed (pool, removed)
  | absent {hash : Uint256} {rest : List Uint256} {pool : CTxMemPool}
      {removed : List CTransaction} {outcome : CTxMemPool × List CTransaction} :
      pool.mapTx.get? hash = none →
      RemoveRun fRecursive rest pool removed outcome →
      RemoveRun fRecursive (hash :: rest) pool removed outcome
  | present {hash : Uint256} {rest : List Uint256} {pool : CTxMemPool}
      {entry : CTxMemPoolEntry} {removed : List CTransaction}
      {outcome : CTxMemPool × List CTransaction} :
      pool.mapTx.get? hash = some entry →
      RemoveRun fRecursive (rest ++ if fRecursive then pool.spenders hash entry.tx else [])
        (pool.removeEntry hash entry) (removed ++ [entry.tx]) outcome →
      RemoveRun fRecursive (hash :: rest) pool removed outcome

variable {fRecursive : Bool} {pool : CTxMemPool} {roots : List CTransaction}
variable {origTx tx : CTransaction}

theorem RemoveRun.of_popPresent
    (empties : pool.popPresent queue = none → outcome = (pool, removed))
    (passes : ∀ hash entry rest, pool.popPresent queue = some ((hash, entry), rest) →
      RemoveRun fRecursive (rest ++ if fRecursive then pool.spenders hash entry.tx else [])
        (pool.removeEntry hash entry) (removed ++ [entry.tx]) outcome) :
    RemoveRun fRecursive queue pool removed outcome := by
  induction queue with
  | nil =>
    rw [empties rfl]
    exact .done
  | cons first rest ih =>
    rw [popPresent] at empties passes
    cases found : pool.mapTx.get? first with
    | none =>
      rw [found] at empties passes
      exact .absent found (ih empties passes)
    | some entry => exact .present found (passes first entry rest (by rw [found]))

/-- With as many passes as there are entries the loop runs to its end. -/
theorem removeLoop_run
    (fRecursive : Bool)
    (enough : pool.mapTx.size ≤ fuel) (queue : List Uint256) (removed : List CTransaction) :
    RemoveRun fRecursive queue pool removed (removeLoop fRecursive fuel queue pool removed) := by
  induction fuel generalizing pool queue removed with
  | zero =>
    apply RemoveRun.of_popPresent
    · intro _
      rfl
    · intro hash entry rest popped
      have smaller := SortedMap.size_erase_lt (popPresent_eq_some popped)
      omega
  | succ fuel ih =>
    rw [removeLoop]
    apply RemoveRun.of_popPresent
    · intro popped
      rw [popped]
    · intro hash entry rest popped
      rw [popped]
      apply ih
      have smaller := SortedMap.size_erase_lt (popPresent_eq_some popped)
      change (pool.mapTx.erase hash).size ≤ fuel
      omega

theorem remove_run
    (pool : CTxMemPool) (origTx : CTransaction) (removed : List CTransaction)
    (fRecursive : Bool) :
    RemoveRun fRecursive (pool.txToRemove origTx fRecursive) pool removed
      (pool.remove origTx removed fRecursive) :=
  removeLoop_run fRecursive le_rfl _ removed

/-- A transaction of the pool spends an output of another transaction.  Zerocoin spends
spend no outputs. -/
structure SpendsOutput (pool : CTxMemPool) (tx : CTransaction) (outpoint : COutPoint)
    (child : CTransaction) : Prop where
  member : child ∈ pool.transactions
  ordinary : child.isZerocoinSpend = false
  named : outpoint ∈ child.prevouts
  output : outpoint.hash = tx.hash ∧ outpoint.n < tx.vout.length

/-- A transaction of the pool spends some output of another one. -/
def Child (pool : CTxMemPool) (tx child : CTransaction) : Prop :=
  ∃ outpoint, pool.SpendsOutput tx outpoint child

/-- A transaction with its descendants in the pool. -/
def Family (pool : CTxMemPool) (root : CTransaction) : CTransaction → Prop :=
  Relation.ReflTransGen pool.Child root

/-- The entry under the hash of a transaction, and where there is none the transaction
itself. -/
def resolve (pool : CTxMemPool) (origTx : CTransaction) : CTransaction :=
  (pool.lookup origTx.hash).getD origTx

/-- An outpoint that is named by a transaction of the pool that is a zerocoin spend. -/
structure TakenBySpend (pool : CTxMemPool) (origTx : CTransaction) (outpoint : COutPoint) :
    Prop where
  member : pool.resolve origTx ∈ pool.transactions
  zerocoin : (pool.resolve origTx).isZerocoinSpend = true
  named : outpoint ∈ (pool.resolve origTx).prevouts

/-- A transaction of the pool spends an output of another one, by a record that the
removal of the root leaves until it pops that other one. -/
def ChildApart (pool : CTxMemPool) (origTx tx child : CTransaction) : Prop :=
  ∃ outpoint, pool.SpendsOutput tx outpoint child ∧
    (tx = pool.resolve origTx ∨ ¬ pool.TakenBySpend origTx outpoint)

/-- A transaction with those of its descendants that it has by such records. -/
def FamilyApart (pool : CTxMemPool) (origTx : CTransaction) : CTransaction → Prop :=
  Relation.ReflTransGen (pool.ChildApart origTx) (pool.resolve origTx)

theorem lookup_eq_some_iff
    (records : pool.Recorded) (hash : Uint256) (tx : CTransaction) :
    pool.lookup hash = some tx ↔ tx ∈ pool.transactions ∧ tx.hash = hash := by
  unfold lookup transactions
  rw [Option.map_eq_some_iff, List.mem_map]
  constructor
  · rintro ⟨entry, found, rfl⟩
    rw [SortedMap.get?_eq_some_iff] at found
    exact ⟨⟨_, found, rfl⟩, records.hashed _ found⟩
  · rintro ⟨⟨⟨key, entry⟩, member, rfl⟩, rfl⟩
    refine ⟨entry, ?_, rfl⟩
    rw [SortedMap.get?_eq_some_iff, records.hashed _ member]
    exact member

theorem resolve_of_mem
    (records : pool.Recorded)
    (member : tx ∈ pool.transactions) :
    pool.resolve tx = tx := by
  rw [resolve, (lookup_eq_some_iff records tx.hash tx).mpr ⟨member, rfl⟩, Option.getD_some]

theorem resolve_hash
    (records : pool.Recorded) (origTx : CTransaction) :
    (pool.resolve origTx).hash = origTx.hash := by
  unfold resolve
  cases found : pool.lookup origTx.hash with
  | none => rfl
  | some tx => exact ((lookup_eq_some_iff records _ _).mp found).2

theorem resolve_of_not_contains
    (absent : pool.contains origTx.hash = false) :
    pool.resolve origTx = origTx := by
  rw [contains, SortedMap.contains, Option.isSome_eq_false_iff, Option.isNone_iff_eq_none] at absent
  rw [resolve, lookup, absent, Option.map_none, Option.getD_none]

theorem get?_eq_none_iff
    (records : pool.Recorded) (hash : Uint256) :
    pool.mapTx.get? hash = none ↔ ∀ tx ∈ pool.transactions, tx.hash ≠ hash := by
  constructor
  · intro absent tx member same
    have found := (lookup_eq_some_iff records hash tx).mpr ⟨member, same⟩
    rw [lookup, absent] at found
    cases found
  · intro absent
    rw [Option.eq_none_iff_forall_ne_some]
    intro entry found
    have looked : pool.lookup hash = some entry.tx := by rw [lookup, found, Option.map_some]
    obtain ⟨member, same⟩ := (lookup_eq_some_iff records hash entry.tx).mp looked
    exact absent entry.tx member same

theorem eq_resolve_of_hash_eq
    (records : pool.Recorded)
    (member : tx ∈ pool.transactions)
    (same : tx.hash = origTx.hash) :
    tx = pool.resolve origTx := by
  rw [resolve, (lookup_eq_some_iff records origTx.hash tx).mpr ⟨member, same⟩, Option.getD_some]

theorem Family.mem
    (descends : pool.Family root tx) :
    tx = root ∨ tx ∈ pool.transactions := by
  rcases Relation.ReflTransGen.cases_tail descends with same | ⟨parent, -, child⟩
  · exact Or.inl same
  · obtain ⟨outpoint, spends⟩ := child
    exact Or.inr spends.member

/-- The descendants of a transaction that is no zerocoin spend are none. -/
theorem Family.ordinary
    (descends : pool.Family root tx)
    (ordinary : root.isZerocoinSpend = false) :
    tx.isZerocoinSpend = false := by
  rcases Relation.ReflTransGen.cases_tail descends with rfl | ⟨parent, -, child⟩
  · exact ordinary
  · obtain ⟨outpoint, spends⟩ := child
    exact spends.ordinary

theorem FamilyApart.ordinary
    (descends : pool.FamilyApart origTx tx)
    (other : tx ≠ pool.resolve origTx) :
    tx.isZerocoinSpend = false := by
  rcases Relation.ReflTransGen.cases_tail descends with same | ⟨parent, -, child⟩
  · exact absurd same other
  · obtain ⟨outpoint, spends, -⟩ := child
    exact spends.ordinary

/-- Transactions are taken out of a pool, with the records of their inputs. -/
structure Without (pool : CTxMemPool) (gone : List CTransaction) (current : CTxMemPool) :
    Prop where
  entries : ∀ hash entry, current.mapTx.get? hash = some entry ↔
    pool.mapTx.get? hash = some entry ∧ ∀ tx ∈ gone, tx.hash ≠ hash
  records : ∀ outpoint inPoint, current.mapNextTx outpoint = some inPoint ↔
    pool.mapNextTx outpoint = some inPoint ∧ ∀ tx ∈ gone, outpoint ∉ tx.prevouts

theorem Without.nil (pool : CTxMemPool) : pool.Without [] pool :=
  ⟨by simp, by simp⟩

theorem Without.removeEntry
    {hash : Uint256}
    (without : pool.Without gone current)
    (sameHash : entry.tx.hash = hash) :
    pool.Without (gone ++ [entry.tx]) (current.removeEntry hash entry) := by
  refine ⟨?_, ?_⟩
  · intro other found
    change (current.mapTx.erase hash).get? other = some found ↔ _
    rw [SortedMap.get?_erase, List.forall_mem_append, List.forall_mem_singleton, sameHash]
    split_ifs with same
    · simp [same]
    · rw [without.entries, and_iff_left (Ne.symm same)]
  · intro outpoint inPoint
    change eraseInputs entry.tx.vin current.mapNextTx outpoint = some inPoint ↔ _
    rw [eraseInputs_apply, List.forall_mem_append, List.forall_mem_singleton]
    change (if outpoint ∈ entry.tx.prevouts then _ else _) = _ ↔ _
    split_ifs with named
    · simp [named]
    · rw [without.records, and_iff_left named]

/-- The recorded spenders of the outputs of a transaction are its children, as far as
their records are left. -/
theorem Without.mem_spenders_iff
    (without : pool.Without gone current)
    (records : pool.Recorded) (tx : CTransaction) (hash : Uint256) :
    hash ∈ current.spenders tx.hash tx ↔
      ∃ child outpoint, pool.SpendsOutput tx outpoint child ∧
        (∀ other ∈ gone, outpoint ∉ other.prevouts) ∧ child.hash = hash := by
  unfold spenders
  simp only [List.mem_filterMap, List.mem_range, Option.map_eq_some_iff]
  constructor
  · rintro ⟨i, inRange, inPoint, recorded, same⟩
    obtain ⟨inPool, left⟩ := (without.records _ inPoint).mp recorded
    obtain ⟨member, ordinary, atPosition⟩ := (records.recorded _ inPoint).mp inPool
    have named := List.mem_of_getElem? atPosition
    exact ⟨inPoint.ptx, _, ⟨member, ordinary, named, rfl, inRange⟩, left, same⟩
  · rintro ⟨child, ⟨outHash, n⟩, ⟨member, ordinary, named, rfl, inRange⟩, left, same⟩
    obtain ⟨i, atPosition⟩ := List.mem_iff_getElem?.mp named
    have inPool := (records.recorded _ ⟨child, i⟩).mpr ⟨member, ordinary, atPosition⟩
    exact ⟨n, inRange, ⟨child, i⟩, (without.records _ _).mpr ⟨inPool, left⟩, same⟩

/-! ## The invariant of the loop -/

/-- A queued hash stands for the root or for a transaction of the pool. -/
def Waits (pool : CTxMemPool) (origTx : CTransaction) (queue : List Uint256)
    (tx : CTransaction) : Prop :=
  tx.hash ∈ queue ∧ (tx = pool.resolve origTx ∨ tx ∈ pool.transactions)

/-- The root, if it has no entry: it counts as visited before the loop. -/
def absentRoot (pool : CTxMemPool) (origTx : CTransaction) : List CTransaction :=
  if pool.contains origTx.hash then [] else [origTx]

/-- Between two passes of the loop. -/
structure Removing (pool : CTxMemPool) (origTx : CTransaction) (queue : List Uint256)
    (gone : List CTransaction) (current : CTxMemPool) : Prop where
  without : pool.Without gone current
  inPool : ∀ tx ∈ gone, tx ∈ pool.transactions
  frontier : Frontier (pool.ChildApart origTx) (pool.resolve origTx)
    (pool.Waits origTx queue) (pool.absentRoot origTx ++ gone)
  /-- The root is popped first. -/
  rootFirst : pool.resolve origTx ∈ pool.absentRoot origTx ++ gone ∨
    ∀ tx, pool.Waits origTx queue tx → tx = pool.resolve origTx

theorem contains_iff
    (records : pool.Recorded) (origTx : CTransaction) :
    pool.contains origTx.hash = true ↔ pool.resolve origTx ∈ pool.transactions := by
  unfold contains SortedMap.contains
  rw [Option.isSome_iff_ne_none, Ne, get?_eq_none_iff records]
  constructor
  · intro present
    push Not at present
    obtain ⟨tx, member, same⟩ := present
    rw [← eq_resolve_of_hash_eq records member same]
    exact member
  · intro member absent
    exact absent _ member (resolve_hash records origTx)

theorem mem_absentRoot_iff
    (records : pool.Recorded) (origTx tx : CTransaction) :
    tx ∈ pool.absentRoot origTx ↔
      tx = pool.resolve origTx ∧ pool.resolve origTx ∉ pool.transactions := by
  have present := contains_iff records origTx
  unfold absentRoot
  split_ifs with contains
  · simp [present.mp contains]
  · have itself := resolve_of_not_contains (Bool.not_eq_true _ ▸ contains)
    rw [present] at contains
    rw [and_iff_left contains, itself, List.mem_singleton]

theorem Waits.eq_of_hash_eq
    (waits : pool.Waits origTx queue tx)
    (records : pool.Recorded)
    (member : other ∈ pool.transactions)
    (same : tx.hash = other.hash) :
    tx = other := by
  rcases waits.2 with rfl | inPool
  · rw [resolve_hash records] at same
    exact (eq_resolve_of_hash_eq records member same.symm).symm
  · exact records.eq_of_hash_eq inPool member same

/-- A popped hash without an entry is that of a visited transaction. -/
theorem Removing.absent
    {hash : Uint256}
    (records : pool.Recorded)
    (removing : pool.Removing origTx (hash :: rest) gone current)
    (noEntry : current.mapTx.get? hash = none) :
    pool.Removing origTx rest gone current := by
  have fewer : ∀ tx, pool.Waits origTx rest tx → pool.Waits origTx (hash :: rest) tx :=
    fun tx waits => ⟨List.mem_cons_of_mem hash waits.1, waits.2⟩
  -- A transaction of the pool under the hash has gone.
  have visited : ∀ tx ∈ pool.transactions, tx.hash = hash → tx ∈ gone := by
    intro tx member same
    by_contra stays
    obtain ⟨entry, found, rfl⟩ := Option.map_eq_some_iff.mp
      ((lookup_eq_some_iff records hash tx).mpr ⟨member, same⟩)
    have left := (removing.without.entries hash entry).mpr ⟨found, ?_⟩
    · rw [noEntry] at left
      cases left
    · intro other otherGone otherSame
      rw [records.eq_of_hash_eq (removing.inPool other otherGone) member
        (otherSame.trans same.symm)] at otherGone
      exact stays otherGone
  refine ⟨removing.without, removing.inPool, removing.frontier.skip fewer ?_, ?_⟩
  · intro tx waits
    rcases List.mem_cons.mp waits.1 with same | later
    · left
      by_cases member : tx ∈ pool.transactions
      · exact List.mem_append_right _ (visited tx member same)
      · have root : tx = pool.resolve origTx := waits.2.resolve_right member
        apply List.mem_append_left
        rw [mem_absentRoot_iff records, ← root]
        exact ⟨rfl, member⟩
    · exact Or.inr ⟨later, waits.2⟩
  · exact removing.rootFirst.imp_right fun onlyRoot tx waits => onlyRoot tx (fewer tx waits)

/-- An entry is popped: its spenders that are still recorded are queued.  A child whose
record is gone has gone too, or spends an outpoint that the root has taken. -/
theorem Removing.present
    {pool current : CTxMemPool} {origTx : CTransaction} {hash : Uint256}
    {entry : CTxMemPoolEntry} {rest : List Uint256} {gone : List CTransaction}
    (records : pool.Recorded)
    (removing : pool.Removing origTx (hash :: rest) gone current)
    (found : current.mapTx.get? hash = some entry) :
    pool.Removing origTx (rest ++ current.spenders hash entry.tx) (gone ++ [entry.tx])
      (current.removeEntry hash entry) := by
  obtain ⟨foundInPool, notGone⟩ := (removing.without.entries hash entry).mp found
  have looked : pool.lookup hash = some entry.tx := by rw [lookup, foundInPool, Option.map_some]
  obtain ⟨member, sameHash⟩ := (lookup_eq_some_iff records hash entry.tx).mp looked
  have waits : pool.Waits origTx (hash :: rest) entry.tx :=
    ⟨by rw [sameHash]; exact List.mem_cons_self, Or.inr member⟩
  have fresh : entry.tx ∉ pool.absentRoot origTx ++ gone := by
    rw [List.mem_append, mem_absentRoot_iff records]
    rintro (⟨root, absent⟩ | entryGone)
    · rw [← root] at absent
      exact absent member
    · exact notGone entry.tx entryGone sameHash
  have spenders := removing.without.mem_spenders_iff records entry.tx
  rw [sameHash] at spenders
  refine ⟨removing.without.removeEntry sameHash, ?_, ?_, ?_⟩
  · rw [List.forall_mem_append, List.forall_mem_singleton]
    exact ⟨removing.inPool, member⟩
  · rw [← List.append_assoc]
    apply removing.frontier.visit waits fresh
    · intro other pending
      rcases List.mem_append.mp pending.1 with later | pushed
      · exact Or.inl ⟨List.mem_cons_of_mem hash later, pending.2⟩
      · obtain ⟨child, outpoint, spends, left, same⟩ := (spenders other.hash).mp pushed
        have childIs := pending.eq_of_hash_eq records spends.member same.symm
        rw [childIs]
        refine Or.inr ⟨outpoint, spends, ?_⟩
        -- As long as its record is left, the root is still to be popped.
        by_contra taken
        rw [not_or, not_not] at taken
        rcases removing.rootFirst with rootVisited | onlyRoot
        · rw [List.mem_append, mem_absentRoot_iff records] at rootVisited
          rcases rootVisited with ⟨-, absent⟩ | rootGone
          · exact absent taken.2.member
          · exact left _ rootGone taken.2.named
        · exact taken.1 (onlyRoot entry.tx waits)
    · intro other pending
      rcases List.mem_cons.mp pending.1 with same | later
      · left
        rw [pending.eq_of_hash_eq records member (same.trans sameHash.symm)]
        exact List.mem_append_right _ (List.mem_singleton_self _)
      · exact Or.inr ⟨List.mem_append_left _ later, pending.2⟩
    · rintro other ⟨outpoint, spends, apart⟩
      by_cases left : ∀ earlier ∈ gone, outpoint ∉ earlier.prevouts
      · right
        refine ⟨List.mem_append_right rest ?_, Or.inr spends.member⟩
        exact (spenders other.hash).mpr ⟨other, outpoint, spends, left, rfl⟩
      · left
        push Not at left
        obtain ⟨earlier, earlierGone, named⟩ := left
        have visited := List.mem_append_right (pool.absentRoot origTx) earlierGone
        cases kind : earlier.isZerocoinSpend with
        | false =>
          have same := records.eq_of_shared (removing.inPool earlier earlierGone)
            spends.member kind spends.ordinary named spends.named
          rw [same] at visited
          exact List.mem_append_left _ visited
        | true =>
          -- Only the root can be a zerocoin spend, and it has gone.
          exfalso
          have descends := removing.frontier.reached earlier (Or.inl visited)
          have root : earlier = pool.resolve origTx := by
            by_contra other
            rw [FamilyApart.ordinary descends other] at kind
            cases kind
          rcases apart with again | notTaken
          · rw [again, ← root] at fresh
            exact fresh visited
          · apply notTaken
            rw [root] at earlierGone named kind
            exact ⟨removing.inPool _ earlierGone, kind, named⟩
  · left
    rw [← List.append_assoc]
    rcases removing.rootFirst with rootVisited | onlyRoot
    · exact List.mem_append_left _ rootVisited
    · rw [← onlyRoot entry.tx waits]
      exact List.mem_append_right _ (List.mem_singleton_self _)

theorem removing_start
    (records : pool.Recorded) (origTx : CTransaction) :
    pool.Removing origTx (pool.txToRemove origTx true) [] pool := by
  have spenders := (Without.nil pool).mem_spenders_iff records (pool.resolve origTx)
  rw [resolve_hash records] at spenders
  have present := contains_iff records origTx
  have started := Frontier.start (pool.ChildApart origTx) (pool.resolve origTx)
  have rootWaits : pool.Waits origTx (pool.txToRemove origTx true) (pool.resolve origTx) :=
    ⟨by rw [resolve_hash records]; exact List.mem_cons_self, Or.inl rfl⟩
  have isRoot : ∀ tx, tx ∈ pool.transactions → tx.hash = origTx.hash →
      tx = pool.resolve origTx :=
    fun tx member same => eq_resolve_of_hash_eq records member same
  cases contains : pool.contains origTx.hash with
  | true =>
    have queue : pool.txToRemove origTx true = [origTx.hash] := by
      simp [txToRemove, contains]
    have onlyRoot : ∀ tx, pool.Waits origTx (pool.txToRemove origTx true) tx →
        tx = pool.resolve origTx := by
      rw [queue]
      intro tx waits
      exact waits.2.elim id fun member => isRoot tx member (List.mem_singleton.mp waits.1)
    refine ⟨Without.nil pool, by simp, ?_, Or.inr onlyRoot⟩
    rw [absentRoot, contains, if_pos rfl]
    apply started.skip onlyRoot
    intro tx root
    rw [root]
    exact Or.inr rootWaits
  | false =>
    have itself := resolve_of_not_contains contains
    have root : pool.absentRoot origTx = [] ++ [pool.resolve origTx] := by
      simp [absentRoot, contains, itself]
    have queue : pool.txToRemove origTx true =
        origTx.hash :: pool.spenders origTx.hash (pool.resolve origTx) := by
      simp [txToRemove, contains, itself]
    refine ⟨Without.nil pool, by simp, ?_, ?_⟩
    · rw [List.append_nil, root]
      apply started.visit rfl List.not_mem_nil
      · intro tx pending
        rw [queue] at pending
        rcases List.mem_cons.mp pending.1 with same | spender
        · left
          exact pending.2.elim id fun member => isRoot tx member same
        · right
          obtain ⟨child, outpoint, spends, -, same⟩ := (spenders tx.hash).mp spender
          rw [pending.eq_of_hash_eq records spends.member same.symm]
          exact ⟨outpoint, spends, Or.inl rfl⟩
      · rintro tx rfl
        exact Or.inr rootWaits
      · rintro tx ⟨outpoint, spends, -⟩
        right
        refine ⟨?_, Or.inr spends.member⟩
        rw [queue]
        apply List.mem_cons_of_mem
        exact (spenders tx.hash).mpr ⟨tx, outpoint, spends, by simp, rfl⟩
    · left
      rw [List.append_nil, root]
      exact List.mem_append_right _ (List.mem_singleton_self _)

/-- What the loop has taken out when its queue is empty. -/
theorem RemoveRun.removing
    (run : RemoveRun true queue current (past ++ gone) outcome)
    (records : pool.Recorded)
    (removing : pool.Removing origTx queue gone current) :
    ∃ final, outcome.2 = past ++ final ∧ pool.Removing origTx [] final outcome.1 := by
  generalize already : past ++ gone = removed at run
  induction run generalizing gone with
  | done => exact ⟨gone, already.symm, removing⟩
  | absent noEntry _ ih =>
    exact ih (removing.absent records noEntry) already
  | present found _ ih =>
    rw [if_pos rfl] at ih
    apply ih (removing.present records found)
    rw [← already, List.append_assoc]

/-- A recursive removal takes out those of the root and its descendants that have
entries, each of them once, with the records of their inputs. -/
theorem remove_recursive
    (records : pool.Recorded) (origTx : CTransaction) (removed : List CTransaction) :
    ∃ gone, (pool.remove origTx removed true).2 = removed ++ gone ∧ gone.Nodup ∧
      (∀ tx, tx ∈ gone ↔ tx ∈ pool.transactions ∧ pool.FamilyApart origTx tx) ∧
      pool.Without gone (pool.remove origTx removed true).1 := by
  have run := remove_run pool origTx removed true
  rw [← List.append_nil removed] at run
  obtain ⟨gone, appended, removing⟩ := run.removing records (removing_start records origTx)
  have visited := removing.frontier.mem_visited_iff (by rintro tx ⟨queued, -⟩; cases queued)
  refine ⟨gone, by simpa using appended, ?_, ?_, by simpa using removing.without⟩
  · exact (List.nodup_append.mp removing.frontier.nodup).2.1
  · intro tx
    rw [FamilyApart, ← visited tx, List.mem_append, mem_absentRoot_iff records]
    constructor
    · exact fun member => ⟨removing.inPool tx member, Or.inr member⟩
    · rintro ⟨member, ⟨root, absent⟩ | taken⟩
      · rw [← root] at absent
        exact absurd member absent
      · exact taken

/-- Each entry recorded for an outpoint that the removed zerocoin spend names is one of
its descendants, by records that the removal of the spend leaves. -/
def LosesOwnRecords (pool : CTxMemPool) (origTx : CTransaction) : Prop :=
  ∀ outpoint inPoint, pool.TakenBySpend origTx outpoint →
    pool.mapNextTx outpoint = some inPoint → pool.FamilyApart origTx inPoint.ptx

theorem FamilyApart.family
    (descends : pool.FamilyApart origTx tx) :
    pool.Family (pool.resolve origTx) tx :=
  Relation.ReflTransGen.mono (fun _ _ ⟨outpoint, spends, _⟩ => ⟨outpoint, spends⟩) _ _ descends

theorem LosesOwnRecords.family_iff
    (own : pool.LosesOwnRecords origTx)
    (records : pool.Recorded) (tx : CTransaction) :
    pool.Family (pool.resolve origTx) tx ↔ pool.FamilyApart origTx tx := by
  refine ⟨?_, FamilyApart.family⟩
  intro descends
  induction descends with
  | refl => exact .refl
  | @tail parent child _ step ih =>
    obtain ⟨outpoint, spends⟩ := step
    by_cases taken : pool.TakenBySpend origTx outpoint
    · obtain ⟨i, atPosition⟩ := List.mem_iff_getElem?.mp spends.named
      have recorded := (records.recorded outpoint ⟨child, i⟩).mpr
        ⟨spends.member, spends.ordinary, atPosition⟩
      exact own outpoint ⟨child, i⟩ taken recorded
    · exact ih.tail ⟨outpoint, spends, Or.inr taken⟩

theorem mem_transactions_iff_get?
    (pool : CTxMemPool) (tx : CTransaction) :
    tx ∈ pool.transactions ↔
      ∃ hash entry, pool.mapTx.get? hash = some entry ∧ entry.tx = tx := by
  simp [transactions, SortedMap.get?_eq_some_iff]

theorem Without.mem_transactions_iff
    (without : pool.Without gone current)
    (records : pool.Recorded)
    (inPool : ∀ tx ∈ gone, tx ∈ pool.transactions) (tx : CTransaction) :
    tx ∈ current.transactions ↔ tx ∈ pool.transactions ∧ tx ∉ gone := by
  rw [mem_transactions_iff_get?]
  constructor
  · rintro ⟨hash, entry, found, rfl⟩
    obtain ⟨foundInPool, stays⟩ := (without.entries hash entry).mp found
    have looked : pool.lookup hash = some entry.tx := by
      rw [lookup, foundInPool, Option.map_some]
    obtain ⟨member, sameHash⟩ := (lookup_eq_some_iff records hash entry.tx).mp looked
    exact ⟨member, fun entryGone => stays entry.tx entryGone sameHash⟩
  · rintro ⟨member, stays⟩
    obtain ⟨entry, found, rfl⟩ := Option.map_eq_some_iff.mp
      ((lookup_eq_some_iff records tx.hash tx).mpr ⟨member, rfl⟩)
    refine ⟨_, entry, (without.entries _ entry).mpr ⟨found, ?_⟩, rfl⟩
    intro other otherGone same
    rw [records.eq_of_hash_eq (inPool other otherGone) member same] at otherGone
    exact stays otherGone

/-- Where no zerocoin spend is taken out, the records stay those of the transactions. -/
theorem Without.recorded
    (without : pool.Without gone current)
    (records : pool.Recorded)
    (inPool : ∀ tx ∈ gone, tx ∈ pool.transactions)
    (ordinary : ∀ tx ∈ gone, tx.isZerocoinSpend = false) :
    current.Recorded := by
  have stays := without.mem_transactions_iff records inPool
  refine ⟨?_, ?_⟩
  · rintro ⟨hash, entry⟩ member
    rw [← SortedMap.get?_eq_some_iff, without.entries, SortedMap.get?_eq_some_iff] at member
    exact records.hashed _ member.1
  · intro outpoint inPoint
    rw [without.records, records.recorded]
    constructor
    · rintro ⟨⟨member, kind, atPosition⟩, left⟩
      refine ⟨(stays _).mpr ⟨member, ?_⟩, kind, atPosition⟩
      intro txGone
      exact left _ txGone (List.mem_of_getElem? atPosition)
    · rintro ⟨inCurrent, kind, atPosition⟩
      obtain ⟨member, notGone⟩ := (stays _).mp inCurrent
      refine ⟨⟨member, kind, atPosition⟩, ?_⟩
      intro other otherGone named
      rw [records.eq_of_shared (inPool other otherGone) member (ordinary other otherGone) kind
        named (List.mem_of_getElem? atPosition)] at otherGone
      exact notGone otherGone

/-- The removal of a transaction that is no zerocoin spend takes it out with its
descendants and keeps the records of the others. -/
theorem remove_ordinary
    (records : pool.Recorded)
    (itself : pool.resolve tx = tx)
    (ordinary : tx.isZerocoinSpend = false) (removed : List CTransaction) :
    (pool.remove tx removed true).1.Recorded ∧
      ∀ other, other ∈ (pool.remove tx removed true).1.transactions ↔
        other ∈ pool.transactions ∧ ¬ pool.Family tx other := by
  obtain ⟨gone, -, -, taken, without⟩ := remove_recursive records tx removed
  have own : pool.LosesOwnRecords tx := by
    rintro outpoint inPoint ⟨-, zerocoin, -⟩
    rw [itself, ordinary] at zerocoin
    cases zerocoin
  have family := own.family_iff records
  rw [itself] at family
  have inPool : ∀ other ∈ gone, other ∈ pool.transactions :=
    fun other member => ((taken other).mp member).1
  refine ⟨without.recorded records inPool ?_, ?_⟩
  · intro other member
    by_cases root : other = pool.resolve tx
    · rw [root, itself, ordinary]
    · exact FamilyApart.ordinary ((taken other).mp member).2 root
  · intro other
    rw [without.mem_transactions_iff records inPool, taken, family]
    tauto

theorem Family.of_shrunk
    {pool current : CTxMemPool}
    (stays : ∀ other, other ∈ current.transactions ↔
      other ∈ pool.transactions ∧ ¬ pool.Family origTx other)
    (left : tx ∈ current.transactions) :
    current.Family root tx ↔ pool.Family root tx := by
  constructor
  · apply Relation.ReflTransGen.mono
    rintro parent child ⟨outpoint, spends⟩
    exact ⟨outpoint, ((stays child).mp spends.member).1, spends.ordinary, spends.named,
      spends.output⟩
  · intro descends
    induction descends with
    | refl => exact .refl
    | @tail parent child above step ih =>
      obtain ⟨outpoint, spends⟩ := step
      have childStep : current.Child parent child :=
        ⟨outpoint, left, spends.ordinary, spends.named, spends.output⟩
      rcases Family.mem above with rfl | member
      · exact Relation.ReflTransGen.single childStep
      · refine (ih ((stays parent).mpr ⟨member, ?_⟩)).tail childStep
        intro parentGone
        exact ((stays child).mp left).2 (parentGone.tail ⟨outpoint, spends⟩)

/-- Removing transactions of the pool that are no zerocoin spends, one after the other,
takes out their descendants. -/
theorem mem_foldl_remove
    (records : pool.Recorded)
    (itself : ∀ root ∈ roots, pool.resolve root = root)
    (ordinary : ∀ root ∈ roots, root.isZerocoinSpend = false) (tx : CTransaction) :
    tx ∈ (roots.foldl (fun current root => (current.remove root [] true).1) pool).transactions ↔
      tx ∈ pool.transactions ∧ ∀ root ∈ roots, ¬ pool.Family root tx := by
  induction roots generalizing pool with
  | nil => simp
  | cons first rest ih =>
    obtain ⟨firstItself, restItself⟩ := List.forall_mem_cons.mp itself
    obtain ⟨firstOrdinary, restOrdinary⟩ := List.forall_mem_cons.mp ordinary
    obtain ⟨kept, stays⟩ := remove_ordinary records firstItself firstOrdinary []
    rw [List.foldl_cons, ih kept ?_ restOrdinary, stays, and_assoc, List.forall_mem_cons]
    · refine and_congr_right fun member => and_congr_right fun notFirst => ?_
      have left := (stays tx).mpr ⟨member, notFirst⟩
      exact forall₂_congr fun root _ => not_congr (Family.of_shrunk stays left)
    · intro root inRest
      unfold resolve
      cases found : (pool.remove first [] true).1.lookup root.hash with
      | none => rfl
      | some present =>
        obtain ⟨inCurrent, same⟩ := (lookup_eq_some_iff kept _ _).mp found
        rw [Option.getD_some, eq_resolve_of_hash_eq records ((stays present).mp inCurrent).1 same]
        exact restItself root inRest

/-- A hash that is queued has no entry when the loop ends. -/
theorem RemoveRun.get?_eq_none
    (run : RemoveRun fRecursive queue pool removed outcome)
    {hash : Uint256}
    (leaves : hash ∈ queue ∨ pool.mapTx.get? hash = none) :
    outcome.1.mapTx.get? hash = none := by
  induction run with
  | done => exact leaves.resolve_left List.not_mem_nil
  | absent noEntry _ ih =>
    apply ih
    rcases leaves with queued | gone
    · rcases List.mem_cons.mp queued with rfl | later
      · exact Or.inr noEntry
      · exact Or.inl later
    · exact Or.inr gone
  | @present first rest current entry _ _ _ _ ih =>
    apply ih
    change _ ∨ (current.mapTx.erase first).get? hash = none
    rw [SortedMap.get?_erase]
    rcases leaves with queued | gone
    · rcases List.mem_cons.mp queued with rfl | later
      · exact Or.inr (if_pos rfl)
      · exact Or.inl (List.mem_append_left _ later)
    · exact Or.inr (by rw [gone, ite_self])

/-- Each of the transactions that are removed one after the other is out in the end. -/
theorem get?_foldl_remove
    {root : CTransaction}
    (listed : root ∈ roots) (pool : CTxMemPool) :
    (roots.foldl (fun current root => (current.remove root [] true).1) pool).mapTx.get?
      root.hash = none := by
  have closed : ClosedUnderRemoval fun current => current.mapTx.get? root.hash = none := by
    intro current hash entry absent _
    change (current.mapTx.erase hash).get? root.hash = none
    rw [SortedMap.get?_erase, absent, ite_self]
  induction roots generalizing pool with
  | nil => cases listed
  | cons first rest ih =>
    rw [List.foldl_cons]
    rcases List.mem_cons.mp listed with rfl | later
    · have absent := (remove_run pool root [] true).get?_eq_none (Or.inl List.mem_cons_self)
      exact closed.foldl_remove absent rest
    · exact ih later _

/-- The removal ends.  It takes out the root and its descendants, lists each of them
once, and leaves the other entries and their records as they were. -/
structure ExactRemoval (pool : CTxMemPool) (origTx : CTransaction)
    (removed : List CTransaction) : Prop where
  runs : RemoveRun true (pool.txToRemove origTx true) pool removed
    (pool.remove origTx removed true)
  listed : ∃ gone, (pool.remove origTx removed true).2 = removed ++ gone ∧ gone.Nodup ∧
    ∀ tx, tx ∈ gone ↔ tx ∈ pool.transactions ∧ pool.Family (pool.resolve origTx) tx
  entries : ∀ hash entry,
    (pool.remove origTx removed true).1.mapTx.get? hash = some entry ↔
      pool.mapTx.get? hash = some entry ∧ ¬ pool.Family (pool.resolve origTx) entry.tx
  records : ∀ outpoint inPoint, inPoint.ptx ∈ pool.transactions →
    ¬ pool.Family (pool.resolve origTx) inPoint.ptx →
      ((pool.remove origTx removed true).1.mapNextTx outpoint = some inPoint ↔
        pool.mapNextTx outpoint = some inPoint)

/-- From a pool whose records are those of its transactions, a recursive removal is exact
if and only if a zerocoin spend that it begins with takes no record of an entry that
stays. -/
theorem remove_exact_iff
    {pool : CTxMemPool}
    (records : pool.Recorded) (origTx : CTransaction) (removed : List CTransaction) :
    pool.ExactRemoval origTx removed ↔ pool.LosesOwnRecords origTx := by
  obtain ⟨gone, appended, nodup, taken, without⟩ := remove_recursive records origTx removed
  constructor
  · intro exactly outpoint inPoint takenBySpend recorded
    have member := ((records.recorded _ _).mp recorded).member
    have rootGone : pool.resolve origTx ∈ gone := (taken _).mpr ⟨takenBySpend.member, .refl⟩
    by_cases descends : pool.Family (pool.resolve origTx) inPoint.ptx
    · -- A descendant is listed, so the loop has reached it.
      obtain ⟨listed, listedAppended, -, mem_listed⟩ := exactly.listed
      rw [appended] at listedAppended
      have inListed := (mem_listed _).mpr ⟨member, descends⟩
      rw [← List.append_cancel_left listedAppended] at inListed
      exact ((taken _).mp inListed).2
    · -- The record of any other entry would still be there.
      have left := (exactly.records outpoint inPoint member descends).mpr recorded
      exact absurd takenBySpend.named (((without.records _ _).mp left).2 _ rootGone)
  · intro own
    have family := own.family_iff records
    refine ⟨remove_run _ _ _ _, ⟨gone, appended, nodup, ?_⟩, ?_, ?_⟩
    · intro tx
      rw [taken, family]
    · intro hash entry
      rw [without.entries, family]
      refine and_congr_right fun found => ?_
      have looked : pool.lookup hash = some entry.tx := by rw [lookup, found, Option.map_some]
      obtain ⟨member, sameHash⟩ := (lookup_eq_some_iff records hash entry.tx).mp looked
      constructor
      · intro stays descends
        exact stays entry.tx ((taken _).mpr ⟨member, descends⟩) sameHash
      · intro stays tx txGone same
        obtain ⟨txMember, descends⟩ := (taken tx).mp txGone
        rw [records.eq_of_hash_eq txMember member (same.trans sameHash.symm)] at descends
        exact stays descends
    · intro outpoint inPoint _ stays
      rw [family] at stays
      rw [without.records, and_iff_left_iff_imp]
      intro recorded tx txGone named
      obtain ⟨member, ordinary, atPosition⟩ := (records.recorded _ _).mp recorded
      obtain ⟨txMember, descends⟩ := (taken tx).mp txGone
      cases kind : tx.isZerocoinSpend with
      | false =>
        rw [records.eq_of_shared txMember member kind ordinary named
          (List.mem_of_getElem? atPosition)] at descends
        exact stays descends
      | true =>
        have root : tx = pool.resolve origTx := by
          by_contra other
          rw [FamilyApart.ordinary descends other] at kind
          cases kind
        rw [root] at txMember kind named
        exact stays (own outpoint inPoint ⟨txMember, kind, named⟩ recorded)

/-- A transaction that spends some outpoints and has some outputs. -/
def plainTx (hash : Uint256) (prevouts : List COutPoint) (outputs : Nat) :
    CTransaction where
  hash := hash
  nVersion := 1
  vin := prevouts.map fun prevout => { prevout := prevout, scriptSig := [], nSequence := 0 }
  vout := List.replicate outputs { nValue := coin, scriptPubKey := [Opcode.op1] }
  nLockTime := 0

/-- A transaction that is not in the pool. -/
def forkTx : CTransaction := plainTx 1 [⟨9, 0⟩] 2

/-- Two transactions that spend its outputs, one that spends outputs of both, and one that
spends something else. -/
def diamondTxs : List CTransaction :=
  [ plainTx 2 [⟨1, 0⟩] 1, plainTx 3 [⟨1, 1⟩] 1, plainTx 4 [⟨2, 0⟩, ⟨3, 0⟩] 1,
    plainTx 5 [⟨8, 0⟩] 1 ]

/-- Some transactions join a pool. -/
def addAll (pool : CTxMemPool) (txs : List CTransaction) : CTxMemPool :=
  txs.foldl (fun current tx => current.addUnchecked tx.hash (.ofTx tx 0 0 0)) pool

/-- The pool of these four transactions. -/
def diamondPool : CTxMemPool := (empty false).addAll diamondTxs

theorem recorded_diamondPool : diamondPool.Recorded := by
  have joins : ∀ (pool : CTxMemPool) (tx : CTransaction),
      pool.Recorded → pool.Admissible tx →
        (pool.addUnchecked tx.hash (.ofTx tx 0 0 0)).Recorded :=
    fun pool tx records admissible =>
      @Recorded.addUnchecked pool (.ofTx tx 0 0 0) records admissible
  have first := joins _ (plainTx 2 [⟨1, 0⟩] 1) (kept_empty false).inputsRecorded
    ⟨by decide, by decide, fun _ => by decide, fun _ => by decide⟩
  have second := joins _ (plainTx 3 [⟨1, 1⟩] 1) first
    ⟨by decide, by decide, fun _ => by decide, fun _ => by decide⟩
  have third := joins _ (plainTx 4 [⟨2, 0⟩, ⟨3, 0⟩] 1) second
    ⟨by decide, by decide, fun _ => by decide, fun _ => by decide⟩
  exact joins _ (plainTx 5 [⟨8, 0⟩] 1) third
    ⟨by decide, by decide, fun _ => by decide, fun _ => by decide⟩

theorem remove_exact_iff_diamond :
    diamondPool.ExactRemoval forkTx [] ∧
      (diamondPool.remove forkTx [] true).2 = diamondTxs.take 3 := by
  refine ⟨?_, by decide⟩
  apply (remove_exact_iff recorded_diamondPool forkTx []).mpr
  rintro outpoint inPoint ⟨member, -, -⟩
  exact absurd member (by decide)

theorem recorded_overlappingPool : overlappingPool.Recorded := by
  have first : oneCoinPool.Recorded :=
    (kept_empty false).inputsRecorded.acceptToMemoryPool oneCoinEnv _ 0 bareChecks
  exact first.acceptToMemoryPool oneCoinEnv _ 0 bareChecks

/-- A zerocoin spend whose second input names the outpoint of another entry takes the
record of that entry with it. -/
theorem removal_takes_record :
    (mempoolSystem fun _ _ => True).Run (.empty false)
        [oneCoinAccepts (firstOutputTx 20), oneCoinAccepts overlappingSpend]
        overlappingPool ∧
      overlappingPool.Recorded ∧
      (overlappingPool.remove overlappingSpend [] true).1.transactions =
        [firstOutputTx 20] ∧
      ¬ overlappingPool.ExactRemoval overlappingSpend [] := by
  have first : (mempoolSystem fun _ _ => True).Run (.empty false)
      [oneCoinAccepts (firstOutputTx 20)] oneCoinPool :=
    .snoc .nil ⟨trivial, rfl⟩
  have second : (mempoolSystem fun _ _ => True).Run (.empty false)
      [oneCoinAccepts (firstOutputTx 20), oneCoinAccepts overlappingSpend]
      overlappingPool :=
    first.snoc ⟨trivial, rfl⟩
  refine ⟨second, recorded_overlappingPool, by decide, ?_⟩
  intro exactly
  have apart : ¬ overlappingPool.Family (overlappingPool.resolve overlappingSpend)
      (firstOutputTx 20) := by
    rw [resolve_of_mem recorded_overlappingPool (by decide)]
    intro descends
    rcases Relation.ReflTransGen.cases_tail descends with same | ⟨parent, above, child⟩
    · exact absurd same (by decide)
    · -- The outpoint is of a transaction that is not in the pool.
      obtain ⟨outpoint, spends⟩ := child
      have named : outpoint = ⟨3, 0⟩ := List.mem_singleton.mp spends.named
      have hashes : ∀ tx ∈ overlappingPool.transactions, tx.hash ≠ 3 := by decide
      have parentHash := spends.output.1.symm
      rw [named] at parentHash
      rcases Family.mem above with rfl | member
      · exact absurd parentHash (by decide)
      · exact hashes parent member parentHash
  have record := exactly.records ⟨3, 0⟩ ⟨firstOutputTx 20, 0⟩ (by decide) apart
  exact absurd (record.mpr (by decide)) (by decide)

end CTxMemPool
end ColossusCoin
