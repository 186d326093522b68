import ColossusCoin.Coins.Basic
import ColossusCoin.Library.KeyedList

/-!
# Caches of unspent outputs

A view of the unspent outputs is the coin database or a cache over another
view.  A cache copies what it fetches from its base, remembers which of its
entries may differ from the base (`DIRTY`) and which the base has no coins for
(`FRESH`), and hands its entries to the base when it is flushed.
-/

namespace ColossusCoin

/-- `CCoinsCacheEntry`, with its two flags. -/
structure CCoinsCacheEntry where
  coins : CCoins
  dirty : Bool
  fresh : Bool
  deriving DecidableEq, Repr

abbrev CCoinsMap := AList fun _ : Uint256 => CCoinsCacheEntry

/-- A view of the unspent outputs: `CCoinsViewDB`, or a `CCoinsViewCache` over
another view. -/
inductive CCoinsView where
  | db (stored : AList fun _ : Uint256 => CCoins) (hashBestChain : Uint256)
  | cache (cacheCoins : CCoinsMap) (hashBlock : Uint256) (base : CCoinsView)

/-- `CCoinsViewCache`: the cache on top of a view. -/
structure CCoinsViewCache where
  cacheCoins : CCoinsMap
  hashBlock : Uint256
  base : CCoinsView

/-- A cache as the view it is. -/
def CCoinsViewCache.toView (cache : CCoinsViewCache) : CCoinsView :=
  .cache cache.cacheCoins cache.hashBlock cache.base

namespace CCoinsView

/-- The entry `FetchCoins` makes for coins that the base returned. -/
def fetchedEntry (coins : CCoins) : CCoinsCacheEntry where
  coins := coins
  dirty := false
  fresh := coins.isPruned

/-- `GetCoins`.  The database trims what it reads; a cache looks the entry up
and fetches it from its base when it has none. -/
def getCoins : CCoinsView → Uint256 → Option CCoins × CCoinsView
  | db stored hashBestChain, txid =>
    ((stored.lookup txid).map CCoins.cleanup, db stored hashBestChain)
  | cache cacheCoins hashBlock base, txid =>
    match cacheCoins.lookup txid with
    | some entry => (some entry.coins, cache cacheCoins hashBlock base)
    | none =>
      match base.getCoins txid with
      | (none, fetchedBase) => (none, cache cacheCoins hashBlock fetchedBase)
      | (some coins, fetchedBase) =>
        (some coins,
          cache (cacheCoins.insert txid (fetchedEntry coins)) hashBlock
            fetchedBase)

/-- `CCoinsViewCache::HaveCoins`, on the coins that `FetchCoins` found. -/
def haveCoins (view : CCoinsView) (txid : Uint256) : Bool × CCoinsView :=
  match view.getCoins txid with
  | (none, fetched) => (false, fetched)
  | (some coins, fetched) => (!coins.vout.isEmpty, fetched)

def getBestBlock : CCoinsView → Uint256
  | db _ hashBestChain => hashBestChain
  | cache _ hashBlock base => if hashBlock = 0 then base.getBestBlock else hashBlock

/-- What `CCoinsViewCache::BatchWrite` makes of its own entry and the child's:
`none` is the failing assertion, `some none` no entry. -/
def mergedEntry (ours : Option CCoinsCacheEntry) (theirs : CCoinsCacheEntry) :
    Option (Option CCoinsCacheEntry) :=
  if theirs.dirty = false then some ours
  else
    match ours with
    | none =>
      if theirs.coins.isPruned then some none
      else if theirs.fresh then
        some (some { coins := theirs.coins, dirty := true, fresh := true })
      else none
    | some entry =>
      if entry.fresh && theirs.coins.isPruned then some none
      else some (some { entry with coins := theirs.coins, dirty := true })

/-- What `CCoinsViewDB::BatchWrite` stores for an entry. -/
def storedEntry (stored : Option CCoins) (theirs : CCoinsCacheEntry) :
    Option (Option CCoins) :=
  if theirs.dirty = false then some stored
  else if theirs.coins.isPruned then some none
  else some (some theirs.coins)

/-- `BatchWrite`, `none` where an assertion fails. -/
def batchWrite (mapCoins : CCoinsMap) (hashBlockIn : Uint256) :
    CCoinsView → Option CCoinsView
  | db stored hashBestChain =>
    (KeyedMerge.merge storedEntry stored mapCoins).map fun written =>
      db written (if hashBlockIn = 0 then hashBestChain else hashBlockIn)
  | cache cacheCoins _ base =>
    (KeyedMerge.merge mergedEntry cacheCoins mapCoins).map fun merged =>
      cache merged hashBlockIn base

end CCoinsView

namespace CCoinsViewCache

/-- The entry that `ModifyCoins` hands out, and the base after it was asked. -/
def modifiedEntry (cache : CCoinsViewCache) (txid : Uint256) :
    CCoinsCacheEntry × CCoinsView :=
  match cache.cacheCoins.lookup txid with
  | some entry => ({ entry with dirty := true }, cache.base)
  | none =>
    match cache.base.getCoins txid with
    | (none, fetchedBase) =>
      ({ coins := CCoins.cleared, dirty := true, fresh := true }, fetchedBase)
    | (some coins, fetchedBase) =>
      ({ coins := coins, dirty := true, fresh := coins.isPruned }, fetchedBase)

/-- `~CCoinsModifier`: trim the edited coins, and drop an entry that the base
does not need to hear of. -/
def settledEntry (entry : CCoinsCacheEntry) : Option CCoinsCacheEntry :=
  if entry.fresh && entry.coins.cleanup.isPruned then none
  else some { entry with coins := entry.coins.cleanup }

/-- `ModifyCoins`, an edit of the coins it hands out, and the end of the
modifier.  The edit may return something of its own. -/
def modifyCoins (cache : CCoinsViewCache) (txid : Uint256)
    (edit : CCoins → α × CCoins) : α × CCoinsViewCache :=
  match cache.modifiedEntry txid with
  | (entry, fetchedBase) =>
    match edit entry.coins with
    | (result, edited) =>
      (result,
        { cache with
          cacheCoins := KeyedMerge.put cache.cacheCoins txid
            (settledEntry { entry with coins := edited })
          base := fetchedBase })

/-- `Flush`: the base takes the entries over, and the cache is emptied. -/
def flush (cache : CCoinsViewCache) : Option CCoinsViewCache :=
  (cache.base.batchWrite cache.cacheCoins cache.hashBlock).map fun written =>
    { cache with cacheCoins := ∅, base := written }

def setBestBlock (cache : CCoinsViewCache) (hashBlockIn : Uint256) :
    CCoinsViewCache :=
  { cache with hashBlock := hashBlockIn }

end CCoinsViewCache

namespace CCoinsView

/-- The coins that a view answers with, absent ones being cleared coins. -/
def coinsAt : CCoinsView → Uint256 → CCoins
  | db stored _, txid => ((stored.lookup txid).map CCoins.cleanup).getD CCoins.cleared
  | cache cacheCoins _ base, txid =>
    match cacheCoins.lookup txid with
    | some entry => entry.coins
    | none => base.coinsAt txid

/-- The view has an entry of its own to which a child's changes can go: the
database always does. -/
def Holds : CCoinsView → Uint256 → Prop
  | db _ _, _ => True
  | cache cacheCoins _ _, txid => (cacheCoins.lookup txid).isSome = true

/-- What the flags of a cache entry say about the view below. -/
structure EntrySound (base : CCoinsView) (txid : Uint256)
    (entry : CCoinsCacheEntry) : Prop where
  /-- Stored coins carry no spent outputs at their end. -/
  trimmed : entry.coins.cleanup = entry.coins
  /-- The parent has no unpruned coins for a `FRESH` entry. -/
  fresh : entry.fresh = true → (base.coinsAt txid).isPruned = true
  /-- Any other entry was fetched through an entry of the parent. -/
  held : entry.fresh = false → base.Holds txid
  /-- Without `DIRTY` the entry is what the parent answers. -/
  current : entry.dirty = false → entry.coins.same (base.coinsAt txid) = true

/-- The entries of every cache of a view are sound. -/
def Sound : CCoinsView → Prop
  | db _ _ => True
  | cache cacheCoins _ base =>
    base.Sound ∧
      ∀ txid entry, cacheCoins.lookup txid = some entry →
        base.EntrySound txid entry

end CCoinsView
end ColossusCoin
