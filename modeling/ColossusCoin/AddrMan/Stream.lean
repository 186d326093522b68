import ColossusCoin.AddrMan.Manager
import ColossusCoin.Primitives.Serialize

/-!
# The address manager on disk

What `Serialize` writes of an address manager, and what `Unserialize` makes of it.  Identifiers are
renumbered: new entries come first, then the tried ones, each in their order.
-/

namespace ColossusCoin

open ByteReaders

namespace CNetAddr

/-- `Unserialize`: sixteen bytes as they stand. -/
def unserialize : Reader CNetAddr := fun bytes =>
  if enough : 16 ≤ bytes.length then
    some (⟨bytes.take 16, List.length_take_of_le enough⟩, bytes.drop 16)
  else none

end CNetAddr

namespace NetService

/-- `Serialize`, with the port in network byte order. -/
def serialize (service : NetService) : List UInt8 :=
  service.addr.ip ++ [UInt8.ofNat (service.port.toNat / 256), UInt8.ofNat service.port.toNat]

def unserialize : Reader NetService := do
  let addr ← CNetAddr.unserialize
  let high ← readByte
  let low ← readByte
  pure ⟨addr, UInt16.ofNat (256 * high.toNat + low.toNat)⟩

end NetService

/-- `Serialize` to disk, by a version of the program. -/
def CAddress.serialize (nVersion : Int32) (addr : CAddress) : List UInt8 :=
  writeSigned 4 nVersion.toInt ++ (littleEndian 4 addr.nTime.toNat ++
    (littleEndian 8 addr.nServices.toNat ++ addr.service.serialize))

/-- `Unserialize` from disk. -/
def CAddress.unserialize : Reader CAddress := do
  let _ ← readSigned 4
  let nTime ← readLittleEndian 4
  let nServices ← readLittleEndian 8
  let service ← NetService.unserialize
  pure
    { service := service, nServices := UInt64.ofNat nServices, nTime := UInt32.ofNat nTime
      nLastTry := 0 }

namespace CAddrInfo

def serialize (nVersion : Int32) (info : CAddrInfo) : List UInt8 :=
  info.toCAddress.serialize nVersion ++ (info.source.ip ++
    (writeSigned 8 info.nLastSuccess.toInt ++ writeSigned 4 info.nAttempts.toInt))

/-- `Unserialize` into a new entry. -/
def unserialize : Reader CAddrInfo := do
  let addr ← CAddress.unserialize
  let source ← CNetAddr.unserialize
  let nLastSuccess ← readSigned 8
  let nAttempts ← readSigned 4
  pure
    { toCAddress := addr, source := source, nLastSuccess := Int64.ofInt nLastSuccess
      nAttempts := Int32.ofInt nAttempts, nRefCount := 0, fInTried := false, nRandomPos := none }

end CAddrInfo

namespace CAddrMan

/-- A round of the first loop of `Serialize`: the numbers of the entries, how many new entries
there were, and their bytes. -/
def serializeNew (man : CAddrMan) (nVersion : Int32) (written : (Nat → Nat) × Nat × List UInt8)
    (entry : Nat × CAddrInfo) : Option ((Nat → Nat) × Nat × List UInt8) :=
  let mapUnkIds := Function.update written.1 entry.1 written.2.1
  if entry.2.nRefCount = 0 then some (mapUnkIds, written.2)
  else if (written.2.1 : Int) = man.nNew then none
  else some (mapUnkIds, written.2.1 + 1, written.2.2 ++ entry.2.serialize nVersion)

/-- A round of the second loop of `Serialize`. -/
def serializeTried (man : CAddrMan) (nVersion : Int32) (written : Nat × List UInt8)
    (entry : Nat × CAddrInfo) : Option (Nat × List UInt8) :=
  if entry.2.fInTried then
    if (written.1 : Int) = man.nTried then none
    else some (written.1 + 1, written.2 ++ entry.2.serialize nVersion)
  else some written

/-- The numbers in a new bucket, from the first cell on. -/
def bucketIndices (man : CAddrMan) (mapUnkIds : Nat → Nat) (bucket : Nat) : List Int :=
  (List.range addrmanBucketSize).filterMap fun i =>
    (man.vvNew (bucket, i)).map fun nId => (mapUnkIds nId : Int)

/-- The numbers in a new bucket, after how many they are. -/
def writeBucket (indices : List Int) : List UInt8 :=
  writeSigned 4 indices.length ++ indices.flatMap (writeSigned 4)

/-- The number of new buckets as it is written. -/
def nUBucketsWritten : Nat :=
  addrmanNewBucketCount ^^^ 2 ^ 30

/-- `Serialize`, unless an assertion fails. -/
def serialize (nVersion : Int32) (man : CAddrMan) : Option (List UInt8) := do
  let new ← man.mapInfo.entries.foldlM (man.serializeNew nVersion) (fun _ => 0, 0, [])
  let tried ← man.mapInfo.entries.foldlM (man.serializeTried nVersion) (0, [])
  pure ([1] ++ ([32] ++ (littleEndian 32 man.nKey.toNat ++ (writeSigned 4 man.nNew ++
    (writeSigned 4 man.nTried ++ (writeSigned 4 nUBucketsWritten ++ (new.2.2 ++ (tried.2 ++
      ((List.range addrmanNewBucketCount).map (man.bucketIndices new.1)).flatMap
        writeBucket))))))))

/-- `Clear`, which leaves the entries and their addresses.  The key that it draws is read. -/
def clear (man : CAddrMan) (nKey : BitVec 256) : CAddrMan where
  nKey := nKey
  nIdCount := 0
  mapInfo := man.mapInfo
  mapAddr := man.mapAddr
  vRandom := []
  nTried := 0
  vvTried := fun _ => none
  nNew := 0
  vvNew := fun _ => none

variable (hash : BucketHash)

/-- The positions in the new buckets can be used. -/
def usesBuckets (nVersion : UInt8) (nUBuckets : Int) : Bool :=
  nVersion == 1 && nUBuckets == addrmanNewBucketCount

/-- A round of the first loop of `Unserialize`: a new entry under the next number. -/
def loadNew (nVersion : UInt8) (nUBuckets : Int) (man : CAddrMan)
    (numbered : CAddrInfo × Nat) : CAddrMan :=
  let n := numbered.2
  let info := { numbered.1 with
    nRefCount := (man.infoAt n).nRefCount
    fInTried := (man.infoAt n).fInTried
    nRandomPos := some man.vRandom.length }
  let loaded := { man with
    mapInfo := man.mapInfo.insert n info
    mapAddr := Function.update man.mapAddr info.service.addr (some n)
    vRandom := man.vRandom ++ [n] }
  let cell := info.newCell hash man.nKey (info.getNewBucket hash man.nKey info.source)
  if !usesBuckets nVersion nUBuckets && (man.vvNew cell).isNone then
    { loaded with
      mapInfo := man.mapInfo.insert n { info with nRefCount := info.nRefCount + 1 }
      vvNew := Function.update man.vvNew cell (some n) }
  else loaded

/-- A round of the second loop of `Unserialize`: a tried entry under the next identifier, unless
its cell is taken. -/
def loadTried (loading : CAddrMan × Nat) (read : CAddrInfo) : CAddrMan × Nat :=
  let man := loading.1
  let cell := read.triedCell hash man.nKey
  match man.vvTried cell with
  | some _ => (man, loading.2 + 1)
  | none =>
    let info := { read with fInTried := true, nRandomPos := some man.vRandom.length }
    ({ man with
      nIdCount := man.nIdCount + 1
      mapInfo := man.mapInfo.insert man.nIdCount info
      mapAddr := Function.update man.mapAddr info.service.addr (some man.nIdCount)
      vRandom := man.vRandom ++ [man.nIdCount]
      vvTried := Function.update man.vvTried cell (some man.nIdCount) }, loading.2)

/-- A position in a new bucket. -/
def loadIndex (nVersion : UInt8) (nUBuckets : Int) (bucket : Nat) (man : CAddrMan)
    (nIndex : Int) : CAddrMan :=
  if 0 ≤ nIndex ∧ nIndex < man.nNew then
    let info := man.infoAt nIndex.toNat
    let cell := info.newCell hash man.nKey bucket
    if usesBuckets nVersion nUBuckets && (man.vvNew cell).isNone &&
        info.nRefCount < addrmanNewBucketsPerAddress then
      { man with
        mapInfo := man.mapInfo.insert nIndex.toNat { info with nRefCount := info.nRefCount + 1 }
        vvNew := Function.update man.vvNew cell (some nIndex.toNat) }
    else { man with mapInfo := man.mapInfo.insert nIndex.toNat info }
  else man

/-- The positions in a new bucket. -/
def loadBucket (nVersion : UInt8) (nUBuckets : Int) (man : CAddrMan)
    (numbered : List Int × Nat) : CAddrMan :=
  numbered.1.foldl (loadIndex hash nVersion nUBuckets numbered.2) man

omit hash in
/-- A round of the last loop of `Unserialize`, which deletes new entries without references. -/
def prune (man : CAddrMan) (nId : Nat) : Option CAddrMan :=
  match man.mapInfo.get? nId with
  | none => some man
  | some info =>
    if info.fInTried = false ∧ info.nRefCount = 0 then man.delete nId else some man

/-- What `Unserialize` makes of what it has read, unless an assertion fails. -/
def load (cleared : CAddrMan) (nVersion : UInt8) (nNew nTried nUBuckets : Int)
    (new tried : List CAddrInfo) (buckets : List (List Int)) : Option CAddrMan :=
  let counted := { cleared with nNew := nNew, nTried := nTried }
  let loadedNew := new.zipIdx.foldl (loadNew hash nVersion nUBuckets) counted
  let loadedTried := tried.foldl (loadTried hash) ({ loadedNew with nIdCount := nNew.toNat }, 0)
  let placed := buckets.zipIdx.foldl (loadBucket hash nVersion nUBuckets)
    { loadedTried.1 with nTried := loadedTried.1.nTried - loadedTried.2 }
  (placed.mapInfo.entries.map Prod.fst).foldlM prune placed

/-- The number of new buckets, from how it is written by newer versions. -/
def unmaskBuckets (nVersion : UInt8) (nUBuckets : Int) : Int :=
  if nVersion = 0 then nUBuckets
  else asSigned 4 ((nUBuckets % 2 ^ 32).toNat ^^^ 2 ^ 30)

omit hash in
/-- The numbers in a new bucket. -/
def readBucket : Reader (List Int) := do
  let nSize ← readSigned 4
  readMany (readSigned 4) nSize.toNat

/-- `Unserialize` into a manager. -/
def unserialize (man : CAddrMan) : Reader CAddrMan := do
  let nVersion ← readByte
  let nKeySize ← readByte
  if nKeySize ≠ 32 then failure
  else do
    let nKey ← readLittleEndian 32
    let nNew ← readSigned 4
    let nTried ← readSigned 4
    let nUBuckets ← readSigned 4
    let new ← readMany CAddrInfo.unserialize nNew.toNat
    let tried ← readMany CAddrInfo.unserialize nTried.toNat
    let buckets ← readMany readBucket (unmaskBuckets nVersion nUBuckets).toNat
    match load hash (man.clear (BitVec.ofNat 256 nKey)) nVersion nNew nTried
        (unmaskBuckets nVersion nUBuckets) new tried buckets with
    | some loaded => pure loaded
    | none => failure

end CAddrMan

end ColossusCoin
