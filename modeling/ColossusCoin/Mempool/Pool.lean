import ColossusCoin.ChainParams
import ColossusCoin.Coins.Update
import ColossusCoin.Library.SortedMap

/-!
# The memory pool

The transactions that wait for a block, with the record of the outpoints that they
spend and the total of their sizes.  Priorities, the fee estimator and the counter of
updates are left out.
-/

namespace ColossusCoin

def mempoolHeight : Int := 0x7fffffff

structure CTxMemPoolEntry where
  tx : CTransaction
  nFee : Int
  nTxSize : Nat
  nTime : Int
  nHeight : Int
  deriving DecidableEq, Repr

/-- The constructor of an entry, which computes the size. -/
def CTxMemPoolEntry.ofTx (tx : CTransaction) (nFee nTime nHeight : Int) :
    CTxMemPoolEntry where
  tx := tx
  nFee := nFee
  nTxSize := tx.getSerializeSize
  nTime := nTime
  nHeight := nHeight

/-- `CInPoint`: a transaction of the pool and a position among its inputs. -/
structure CInPoint where
  ptx : CTransaction
  n : Nat
  deriving DecidableEq, Repr

/-- `mapNextTx`. -/
abbrev NextTxMap := COutPoint → Option CInPoint

structure CTxMemPool where
  fSanityCheck : Bool
  mapTx : SortedMap Uint256 CTxMemPoolEntry
  mapNextTx : NextTxMap
  /-- `uint64_t`. -/
  totalTxSize : Nat

namespace CTxMemPool

/-- A pool as it is constructed, and as `setSanityCheck` sets it up. -/
def empty (fSanityCheck : Bool) : CTxMemPool where
  fSanityCheck := fSanityCheck
  mapTx := .empty
  mapNextTx := fun _ => none
  totalTxSize := 0

/-- The transactions of the pool, in the order of their hashes. -/
def transactions (pool : CTxMemPool) : List CTransaction :=
  pool.mapTx.entries.map fun entry => entry.2.tx

/-- `exists`. -/
def contains (pool : CTxMemPool) (hash : Uint256) : Bool :=
  pool.mapTx.contains hash

def lookup (pool : CTxMemPool) (hash : Uint256) : Option CTransaction :=
  (pool.mapTx.get? hash).map CTxMemPoolEntry.tx

/-- Record the inputs of a transaction from a position on. -/
def recordInputs (tx : CTransaction) : List CTxIn → Nat → NextTxMap → NextTxMap
  | [], _, mapNextTx => mapNextTx
  | txin :: rest, i, mapNextTx =>
    recordInputs tx rest (i + 1) (Function.update mapNextTx txin.prevout (some ⟨tx, i⟩))

/-- `addUnchecked`.  The inputs of zerocoin spends are not recorded. -/
def addUnchecked (pool : CTxMemPool) (hash : Uint256) (entry : CTxMemPoolEntry) :
    CTxMemPool :=
  { pool with
    mapTx := pool.mapTx.insert hash entry
    mapNextTx :=
      if entry.tx.isZerocoinSpend then pool.mapNextTx
      else recordInputs entry.tx entry.tx.vin 0 pool.mapNextTx
    totalTxSize := (pool.totalTxSize + entry.nTxSize) % 2 ^ 64 }

/-- Erase the records of inputs. -/
def eraseInputs : List CTxIn → NextTxMap → NextTxMap
  | [], mapNextTx => mapNextTx
  | txin :: rest, mapNextTx =>
    eraseInputs rest (Function.update mapNextTx txin.prevout none)

/-- The transactions recorded as spending the outputs of another one. -/
def spenders (pool : CTxMemPool) (hash : Uint256) (tx : CTransaction) : List Uint256 :=
  (List.range tx.vout.length).filterMap fun i =>
    (pool.mapNextTx ⟨hash, i⟩).map fun inPoint => inPoint.ptx.hash

/-- Take an entry out.  Its inputs are erased from the record whether or not it is
a zerocoin spend. -/
def removeEntry (pool : CTxMemPool) (hash : Uint256) (entry : CTxMemPoolEntry) :
    CTxMemPool :=
  { pool with
    mapTx := pool.mapTx.erase hash
    mapNextTx := eraseInputs entry.tx.vin pool.mapNextTx
    totalTxSize := (pool.totalTxSize + (2 ^ 64 - entry.nTxSize % 2 ^ 64)) % 2 ^ 64 }

/-- Pop hashes until one has an entry. -/
def popPresent (pool : CTxMemPool) :
    List Uint256 → Option ((Uint256 × CTxMemPoolEntry) × List Uint256)
  | [] => none
  | hash :: rest =>
    match pool.mapTx.get? hash with
    | none => popPresent pool rest
    | some entry => some ((hash, entry), rest)

/-- The loop of `remove` over the queue.  Each pass takes an entry out, so the number
of entries is fuel enough. -/
def removeLoop (fRecursive : Bool) :
    Nat → List Uint256 → CTxMemPool → List CTransaction →
      CTxMemPool × List CTransaction
  | 0, _, pool, removed => (pool, removed)
  | fuel + 1, txToRemove, pool, removed =>
    match pool.popPresent txToRemove with
    | none => (pool, removed)
    | some ((hash, entry), rest) =>
      removeLoop fRecursive fuel
        (rest ++ if fRecursive then pool.spenders hash entry.tx else [])
        (pool.removeEntry hash entry) (removed ++ [entry.tx])

/-- `remove`: the pool after it, and the list to which it appends the transactions
that it removed. -/
def remove (pool : CTxMemPool) (origTx : CTransaction) (removed : List CTransaction)
    (fRecursive : Bool := false) : CTxMemPool × List CTransaction :=
  let txToRemove :=
    origTx.hash ::
      if fRecursive && !pool.contains origTx.hash then pool.spenders origTx.hash origTx
      else []
  removeLoop fRecursive pool.mapTx.size txToRemove pool removed

/-- The loop of `removeConflicts` over the inputs. -/
def removeConflictsLoop (tx : CTransaction) :
    List CTxIn → CTxMemPool → List CTransaction → CTxMemPool × List CTransaction
  | [], pool, removed => (pool, removed)
  | txin :: rest, pool, removed =>
    match pool.mapNextTx txin.prevout with
    | none => removeConflictsLoop tx rest pool removed
    | some inPoint =>
      if inPoint.ptx.hash = tx.hash then removeConflictsLoop tx rest pool removed
      else
        let (without, nowRemoved) := pool.remove inPoint.ptx removed true
        removeConflictsLoop tx rest without nowRemoved

def removeConflicts (pool : CTxMemPool) (tx : CTransaction)
    (removed : List CTransaction) : CTxMemPool × List CTransaction :=
  removeConflictsLoop tx tx.vin pool removed

/-- `removeForBlock`, without the fee estimator: the pool after it, and the conflicts
that it found. -/
def removeForBlock : List CTransaction → CTxMemPool → List CTransaction →
    CTxMemPool × List CTransaction
  | [], pool, conflicts => (pool, conflicts)
  | tx :: rest, pool, conflicts =>
    let (without, nowConflicts) := (pool.remove tx []).1.removeConflicts tx conflicts
    removeForBlock rest without nowConflicts

/-- An input spends an output that is no longer there, or that is immature; `none`
where the assertion of the sanity check fails.  The subtraction of heights is
unsigned. -/
def spendsImmature (params : CChainParams) (pool : CTxMemPool) (pcoins : CCoinsViewCache)
    (nMemPoolHeight : Nat) : List CTxIn → Option Bool
  | [] => some false
  | txin :: rest =>
    if pool.contains txin.prevout.hash then
      spendsImmature params pool pcoins nMemPoolHeight rest
    else
      match pcoins.accessCoins txin.prevout.hash with
      | none => if pool.fSanityCheck then none else some true
      | some coins =>
        if (coins.fCoinBase || coins.fCoinStake) &&
            ((nMemPoolHeight : Int) - coins.nHeight) % 2 ^ 32 <
              params.nMaturity % 2 ^ 32 then
          some true
        else spendsImmature params pool pcoins nMemPoolHeight rest

/-- The loop of `removeCoinbaseSpends` that collects transactions. -/
def collectImmature (params : CChainParams) (pool : CTxMemPool) (pcoins : CCoinsViewCache)
    (nMemPoolHeight : Nat) : List CTransaction → Option (List CTransaction)
  | [] => some []
  | tx :: rest =>
    match spendsImmature params pool pcoins nMemPoolHeight tx.vin with
    | none => none
    | some immature =>
      (collectImmature params pool pcoins nMemPoolHeight rest).map fun collected =>
        if immature then tx :: collected else collected

/-- `removeCoinbaseSpends`, `none` where its assertion fails. -/
def removeCoinbaseSpends (params : CChainParams) (pool : CTxMemPool)
    (pcoins : CCoinsViewCache) (nMemPoolHeight : Nat) : Option CTxMemPool :=
  (collectImmature params pool pcoins nMemPoolHeight pool.transactions).map
    fun transactionsToRemove =>
      transactionsToRemove.foldl (fun current tx => (current.remove tx [] true).1) pool

def clear (pool : CTxMemPool) : CTxMemPool :=
  { pool with
    mapTx := .empty
    mapNextTx := fun _ => none
    totalTxSize := 0 }

theorem popPresent_eq_some
    {pool : CTxMemPool} {hash : Uint256}
    (popped : pool.popPresent queue = some ((hash, entry), rest)) :
    pool.mapTx.get? hash = some entry := by
  induction queue with
  | nil => simp [popPresent] at popped
  | cons first others ih =>
    rw [popPresent] at popped
    cases found : pool.mapTx.get? first with
    | none =>
      rw [found] at popped
      exact ih popped
    | some present =>
      rw [found] at popped
      obtain ⟨⟨rfl, rfl⟩, -⟩ := popped
      exact found

theorem removeLoop_fuel
    (fRecursive : Bool) {fuel : Nat} {pool : CTxMemPool}
    (enough : pool.mapTx.size ≤ fuel) (more : Nat) (removed : List CTransaction) :
    removeLoop fRecursive (fuel + more) queue pool removed =
      removeLoop fRecursive fuel queue pool removed := by
  induction fuel generalizing queue pool removed with
  | zero =>
    cases more with
    | zero => rfl
    | succ more =>
      rw [Nat.zero_add, removeLoop, removeLoop]
      cases popped : pool.popPresent queue with
      | none => rfl
      | some outcome =>
        obtain ⟨⟨hash, entry⟩, rest⟩ := outcome
        have smaller := SortedMap.size_erase_lt (popPresent_eq_some popped)
        omega
  | succ fuel ih =>
    rw [Nat.succ_add, removeLoop, removeLoop]
    cases popped : pool.popPresent queue with
    | none => rfl
    | some outcome =>
      obtain ⟨⟨hash, entry⟩, rest⟩ := outcome
      apply ih
      have smaller := SortedMap.size_erase_lt (popPresent_eq_some popped)
      change (pool.mapTx.erase hash).size ≤ fuel
      omega

end CTxMemPool
end ColossusCoin
