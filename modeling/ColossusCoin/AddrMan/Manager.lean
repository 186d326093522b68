import ColossusCoin.Library.SortedMap
import ColossusCoin.Primitives.Transaction
import Mathlib.Data.Finset.Basic
import Mathlib.Data.List.ProdSigma

/-!
# Addresses and their manager

Network addresses, services and the entries of the address manager, with the predicates that the
manager asks of them.  Where an entry belongs is found by hashing, which is a parameter.
-/

namespace ColossusCoin

/-- `CNetAddr`: sixteen bytes. -/
structure CNetAddr where
  ip : List UInt8
  length_ip : ip.length = 16
  deriving DecidableEq

namespace CNetAddr

/-- `CNetAddr()`. -/
def null : CNetAddr where
  ip := List.replicate 16 0
  length_ip := by decide

def pchIPv4 : List UInt8 := [0, 0, 0, 0, 0, 0, 0, 0, 0, 0, 0xff, 0xff]

def pchOnionCat : List UInt8 := [0xfd, 0x87, 0xd8, 0x7e, 0xeb, 0x43]

/-- `memcmp` of the first bytes finds no difference. -/
def startsWith (addr : CNetAddr) (bytes : List UInt8) : Bool :=
  addr.ip.take bytes.length == bytes

/-- `GetByte`, from the end. -/
def getByte (addr : CNetAddr) (n : Nat) : Nat :=
  (addr.ip.getD (15 - n) 0).toNat

def isIPv4 (addr : CNetAddr) : Bool :=
  addr.startsWith pchIPv4

def isTor (addr : CNetAddr) : Bool :=
  addr.startsWith pchOnionCat

/-- `IsRFC1918`: private networks. -/
def isRFC1918 (addr : CNetAddr) : Bool :=
  addr.isIPv4 && (addr.getByte 3 == 10 || (addr.getByte 3 == 192 && addr.getByte 2 == 168) ||
    (addr.getByte 3 == 172 && 16 ≤ addr.getByte 2 && addr.getByte 2 ≤ 31))

/-- `IsRFC2544`: communications between networks. -/
def isRFC2544 (addr : CNetAddr) : Bool :=
  addr.isIPv4 && addr.getByte 3 == 198 && (addr.getByte 2 == 18 || addr.getByte 2 == 19)

/-- `IsRFC3927`: autoconfiguration. -/
def isRFC3927 (addr : CNetAddr) : Bool :=
  addr.isIPv4 && addr.getByte 3 == 169 && addr.getByte 2 == 254

/-- `IsRFC6598`: translation by providers. -/
def isRFC6598 (addr : CNetAddr) : Bool :=
  addr.isIPv4 && addr.getByte 3 == 100 && 64 ≤ addr.getByte 2 && addr.getByte 2 ≤ 127

/-- `IsRFC5737`: documentation. -/
def isRFC5737 (addr : CNetAddr) : Bool :=
  addr.isIPv4 &&
    ((addr.getByte 3 == 192 && addr.getByte 2 == 0 && addr.getByte 1 == 2) ||
      (addr.getByte 3 == 198 && addr.getByte 2 == 51 && addr.getByte 1 == 100) ||
      (addr.getByte 3 == 203 && addr.getByte 2 == 0 && addr.getByte 1 == 113))

/-- `IsRFC3849`: documentation. -/
def isRFC3849 (addr : CNetAddr) : Bool :=
  addr.getByte 15 == 0x20 && addr.getByte 14 == 0x01 && addr.getByte 13 == 0x0d &&
    addr.getByte 12 == 0xb8

/-- `IsRFC4862`: autoconfiguration. -/
def isRFC4862 (addr : CNetAddr) : Bool :=
  addr.startsWith [0xfe, 0x80, 0, 0, 0, 0, 0, 0]

/-- `IsRFC4193`: unique local addresses. -/
def isRFC4193 (addr : CNetAddr) : Bool :=
  addr.getByte 15 &&& 0xfe == 0xfc

/-- `IsRFC4843`: hash identifiers. -/
def isRFC4843 (addr : CNetAddr) : Bool :=
  addr.getByte 15 == 0x20 && addr.getByte 14 == 0x01 && addr.getByte 13 == 0x00 &&
    addr.getByte 12 &&& 0xf0 == 0x10

def isLocal (addr : CNetAddr) : Bool :=
  (addr.isIPv4 && (addr.getByte 3 == 127 || addr.getByte 3 == 0)) ||
    addr.ip == List.replicate 15 0 ++ [1]

def isValid (addr : CNetAddr) : Bool :=
  !addr.startsWith (pchIPv4.drop 3) && addr.ip != List.replicate 16 0 && !addr.isRFC3849 &&
    !(addr.isIPv4 && (addr.ip.drop 12 == List.replicate 4 0xff ||
      addr.ip.drop 12 == List.replicate 4 0))

def isRoutable (addr : CNetAddr) : Bool :=
  addr.isValid && !(addr.isRFC1918 || addr.isRFC2544 || addr.isRFC3927 || addr.isRFC4862 ||
    addr.isRFC6598 || addr.isRFC5737 || (addr.isRFC4193 && !addr.isTor) || addr.isRFC4843 ||
    addr.isLocal)

end CNetAddr

/-- `CService`, by its bytes. -/
structure NetService where
  addr : CNetAddr
  port : UInt16
  deriving DecidableEq

structure CAddress where
  service : NetService
  nServices : UInt64
  nTime : UInt32
  nLastTry : Int64

/-- `CAddress()`, for network nodes at no address. -/
def CAddress.null : CAddress where
  service := ⟨CNetAddr.null, 0⟩
  nServices := 1
  nTime := 100000000
  nLastTry := 0

/-- `CAddrInfo`.  No random position is one of minus one. -/
structure CAddrInfo extends CAddress where
  source : CNetAddr
  nLastSuccess : Int64
  nAttempts : Int32
  nRefCount : Int
  fInTried : Bool
  nRandomPos : Option Nat

/-- The hashes, before they are reduced to the number of buckets and of positions. -/
structure BucketHash where
  triedBucket : BitVec 256 → NetService → Nat
  newBucket : BitVec 256 → CNetAddr → CNetAddr → Nat
  bucketPosition : BitVec 256 → Bool → Nat → NetService → Nat

def addrmanTriedBucketCount : Nat := 256

def addrmanNewBucketCount : Nat := 1024

def addrmanBucketSize : Nat := 64

def addrmanNewBucketsPerAddress : Int := 8

/-- A unix time as a signed number. -/
def signedTime (nTime : UInt32) : Int64 :=
  Int64.ofNat nTime.toNat

/-- A signed time cut to an unsigned one, at zero from below. -/
def unsignedTime (nTime : Int64) : UInt32 :=
  (max 0 nTime).toUInt64.toUInt32

namespace CAddrInfo

/-- `CAddrInfo(addrIn, addrSource)`. -/
def ofAddress (addrIn : CAddress) (addrSource : CNetAddr) : CAddrInfo where
  toCAddress := { addrIn with nLastTry := 0 }
  source := addrSource
  nLastSuccess := 0
  nAttempts := 0
  nRefCount := 0
  fInTried := false
  nRandomPos := none

/-- `CAddrInfo()`. -/
def null : CAddrInfo :=
  ofAddress CAddress.null CNetAddr.null

variable (hash : BucketHash) (nKey : BitVec 256) (info : CAddrInfo)

def getTriedBucket : Nat :=
  hash.triedBucket nKey info.service % addrmanTriedBucketCount

/-- `GetNewBucket` for a source. -/
def getNewBucket (src : CNetAddr) : Nat :=
  hash.newBucket nKey info.service.addr src % addrmanNewBucketCount

def getBucketPosition (fNew : Bool) (nBucket : Nat) : Nat :=
  hash.bucketPosition nKey fNew nBucket info.service % addrmanBucketSize

/-- The cell of a new bucket that an entry may stand in. -/
def newCell (nBucket : Nat) : Nat × Nat :=
  (nBucket, info.getBucketPosition hash nKey true nBucket)

/-- The cell of the tried buckets that an entry may stand in. -/
def triedCell : Nat × Nat :=
  (info.getTriedBucket hash nKey,
    info.getBucketPosition hash nKey false (info.getTriedBucket hash nKey))

omit hash nKey in
def isTerrible (nNow : Int64) : Bool :=
  if info.nLastTry != 0 && nNow - 60 ≤ info.nLastTry then false
  else if nNow + 10 * 60 < signedTime info.nTime then true
  else if info.nTime == 0 || 30 * 24 * 60 * 60 < nNow - signedTime info.nTime then true
  else if info.nLastSuccess == 0 && 3 ≤ info.nAttempts then true
  else 7 * 24 * 60 * 60 < nNow - info.nLastSuccess && 10 ≤ info.nAttempts

end CAddrInfo

/-!
## The address manager

`CAddrMan` keeps what it knows of network addresses under identifiers, with an index by address, a
list in random order, and two tables of buckets.  An operation has no result where an assertion
fails.  Random choices and the time are arguments.
-/

/-- `GetRandInt`, from what was drawn. -/
def getRandInt (draw nMax : Nat) : Nat :=
  if nMax = 0 then 0 else draw % nMax

/-- The cells of the new buckets, bucket by bucket. -/
def newCells : List (Nat × Nat) :=
  List.range addrmanNewBucketCount ×ˢ List.range addrmanBucketSize

/-- The cells of the tried buckets, bucket by bucket. -/
def triedCells : List (Nat × Nat) :=
  List.range addrmanTriedBucketCount ×ˢ List.range addrmanBucketSize

/-- `CAddrMan`.  Identifiers are numbers that do not run out, and an empty cell, of minus one in
the source, has none. -/
structure CAddrMan where
  nKey : BitVec 256
  nIdCount : Nat
  mapInfo : SortedMap Nat CAddrInfo
  mapAddr : CNetAddr → Option Nat
  vRandom : List Nat
  nTried : Int
  vvTried : Nat × Nat → Option Nat
  nNew : Int
  vvNew : Nat × Nat → Option Nat

namespace CAddrMan

/-- `CAddrMan()`, with the key that was drawn. -/
def empty (nKey : BitVec 256) : CAddrMan where
  nKey := nKey
  nIdCount := 0
  mapInfo := SortedMap.empty
  mapAddr := fun _ => none
  vRandom := []
  nTried := 0
  vvTried := fun _ => none
  nNew := 0
  vvNew := fun _ => none

/-- Change the entry of an identifier. -/
def setInfo (man : CAddrMan) (nId : Nat) (info : CAddrInfo) : CAddrMan :=
  { man with mapInfo := man.mapInfo.insert nId info }

/-- The entry of an identifier, as `operator[]` gives it. -/
def infoAt (man : CAddrMan) (nId : Nat) : CAddrInfo :=
  (man.mapInfo.get? nId).getD CAddrInfo.null

/-- `Find`: the identifier and the entry of an address. -/
def find (man : CAddrMan) (addr : CNetAddr) : Option (Nat × CAddrInfo) := do
  let nId ← man.mapAddr addr
  let info ← man.mapInfo.get? nId
  pure (nId, info)

/-- `Create`, with the identifier and the entry that it makes. -/
def create (man : CAddrMan) (addr : CAddress) (addrSource : CNetAddr) :
    Nat × CAddrInfo × CAddrMan :=
  let nId := man.nIdCount
  let info := { CAddrInfo.ofAddress addr addrSource with nRandomPos := some man.vRandom.length }
  (nId, info,
    { man with
      nIdCount := man.nIdCount + 1
      mapInfo := man.mapInfo.insert nId info
      mapAddr := Function.update man.mapAddr addr.service.addr (some nId)
      vRandom := man.vRandom ++ [nId] })

def swapRandom (man : CAddrMan) (nRndPos1 nRndPos2 : Nat) : Option CAddrMan :=
  if nRndPos1 = nRndPos2 then some man
  else do
    let nId1 ← man.vRandom[nRndPos1]?
    let nId2 ← man.vRandom[nRndPos2]?
    let info1 ← man.mapInfo.get? nId1
    let info2 ← man.mapInfo.get? nId2
    pure
      { man with
        mapInfo := (man.mapInfo.insert nId1 { info1 with nRandomPos := some nRndPos2 }).insert nId2
          { info2 with nRandomPos := some nRndPos1 }
        vRandom := (man.vRandom.set nRndPos1 nId2).set nRndPos2 nId1 }

def delete (man : CAddrMan) (nId : Nat) : Option CAddrMan := do
  let info ← man.mapInfo.get? nId
  if info.fInTried || info.nRefCount != 0 || man.vRandom.isEmpty then none
  else do
    let nRandomPos ← info.nRandomPos
    let swapped ← man.swapRandom nRandomPos (man.vRandom.length - 1)
    pure
      { swapped with
        mapInfo := swapped.mapInfo.erase nId
        mapAddr := Function.update swapped.mapAddr info.service.addr none
        vRandom := swapped.vRandom.dropLast
        nNew := swapped.nNew - 1 }

/-- `ClearNew`.  An entry that `operator[]` had to make would have no references. -/
def clearNew (man : CAddrMan) (cell : Nat × Nat) : Option CAddrMan :=
  match man.vvNew cell with
  | none => some man
  | some nIdDelete => do
      let infoDelete ← man.mapInfo.get? nIdDelete
      if infoDelete.nRefCount ≤ 0 then none
      else
        let cleared := { man with
          mapInfo := man.mapInfo.insert nIdDelete
            { infoDelete with nRefCount := infoDelete.nRefCount - 1 }
          vvNew := Function.update man.vvNew cell none }
        if infoDelete.nRefCount - 1 = 0 then cleared.delete nIdDelete else some cleared

variable (hash : BucketHash)

/-- One round of the first loop of `MakeTried`. -/
def removeFromNew (nId : Nat) (man : CAddrMan) (bucket : Nat) : CAddrMan :=
  match man.mapInfo.get? nId with
  | none => man
  | some info =>
    let cell := info.newCell hash man.nKey bucket
    if man.vvNew cell = some nId then
      { man with
        mapInfo := man.mapInfo.insert nId { info with nRefCount := info.nRefCount - 1 }
        vvNew := Function.update man.vvNew cell none }
    else man

/-- `MakeTried` makes space in a tried bucket: the entry there is moved to new. -/
def evict (man : CAddrMan) (cell : Nat × Nat) : Option CAddrMan :=
  match man.vvTried cell with
  | none => some man
  | some nIdEvict => do
      let infoOld ← man.mapInfo.get? nIdEvict
      let removed := { man with
        mapInfo := man.mapInfo.insert nIdEvict { infoOld with fInTried := false }
        vvTried := Function.update man.vvTried cell none
        nTried := man.nTried - 1 }
      let newCell := infoOld.newCell hash man.nKey
        (infoOld.getNewBucket hash man.nKey infoOld.source)
      let cleared ← removed.clearNew newCell
      if cleared.vvNew newCell ≠ none then none
      else do
        let infoMoved ← cleared.mapInfo.get? nIdEvict
        pure
          { cleared with
            mapInfo := cleared.mapInfo.insert nIdEvict { infoMoved with nRefCount := 1 }
            vvNew := Function.update cleared.vvNew newCell (some nIdEvict)
            nNew := cleared.nNew + 1 }

/-- `MakeTried` from its first assertion on. -/
def moveToTried (looped : CAddrMan) (nId : Nat) : Option CAddrMan := do
  let removed := { looped with nNew := looped.nNew - 1 }
  let info ← removed.mapInfo.get? nId
  if info.nRefCount ≠ 0 then none
  else do
    let cell := info.triedCell hash removed.nKey
    let spaced ← removed.evict hash cell
    if spaced.vvTried cell ≠ none then none
    else do
      let infoMoved ← spaced.mapInfo.get? nId
      pure
        { spaced with
          mapInfo := spaced.mapInfo.insert nId { infoMoved with fInTried := true }
          vvTried := Function.update spaced.vvTried cell (some nId)
          nTried := spaced.nTried + 1 }

def makeTried (man : CAddrMan) (nId : Nat) : Option CAddrMan :=
  ((List.range addrmanNewBucketCount).foldl (removeFromNew hash nId) man).moveToTried hash nId

/-- The loop of `Good_` that looks for a bucket, from a random one on. -/
def bucketOf (man : CAddrMan) (nId : Nat) (info : CAddrInfo) (nRnd : Nat) : Option Nat :=
  (List.range addrmanNewBucketCount).find? fun n =>
    man.vvNew (info.newCell hash man.nKey ((n + nRnd) % addrmanNewBucketCount)) = some nId

def good_ (man : CAddrMan) (addr : NetService) (nTime : Int64) (draw : Nat) : Option CAddrMan :=
  match man.find addr.addr with
  | none => some man
  | some (nId, info) =>
    if info.service ≠ addr then some man
    else
      let updated := { info with nLastSuccess := nTime, nLastTry := nTime, nAttempts := 0 }
      let man := man.setInfo nId updated
      if info.fInTried then some man
      else if (man.bucketOf hash nId updated (getRandInt draw addrmanNewBucketCount)).isNone then
        some man
      else man.makeTried hash nId

/-- What `Add_` takes over from an address that it knows. -/
def seenAgain (info : CAddrInfo) (addr : CAddress) (nTimePenalty adjustedTime : Int64) :
    CAddrInfo :=
  let nUpdateInterval : Int64 :=
    if adjustedTime - signedTime addr.nTime < 24 * 60 * 60 then 60 * 60 else 24 * 60 * 60
  { info with
    nTime :=
      if addr.nTime != 0 && (info.nTime == 0 ||
          signedTime info.nTime < signedTime addr.nTime - nUpdateInterval - nTimePenalty) then
        unsignedTime (signedTime addr.nTime - nTimePenalty)
      else info.nTime
    nServices := info.nServices ||| addr.nServices }

/-- `Add_` tells something new of an address that it knows, so it tries another bucket. -/
def addsBucket (info : CAddrInfo) (addr : CAddress) (draw : Nat) : Bool :=
  !(addr.nTime == 0 || (info.nTime != 0 && addr.nTime ≤ info.nTime)) && !info.fInTried &&
    info.nRefCount != addrmanNewBucketsPerAddress &&
      !(1 < 2 ^ info.nRefCount.toNat && getRandInt draw (2 ^ info.nRefCount.toNat) != 0)

/-- Another reference to an entry, from an empty cell. -/
def refer (man : CAddrMan) (nId : Nat) (cell : Nat × Nat) : Option CAddrMan := do
  let info ← man.mapInfo.get? nId
  pure
    { man with
      mapInfo := man.mapInfo.insert nId { info with nRefCount := info.nRefCount + 1 }
      vvNew := Function.update man.vvNew cell (some nId) }

/-- The end of `Add_`: put an entry into the bucket for a source, if there is space. -/
def enterNew (man : CAddrMan) (nId : Nat) (info : CAddrInfo) (source : CNetAddr)
    (nNow : Int64) : Option CAddrMan :=
  let cell := info.newCell hash man.nKey (info.getNewBucket hash man.nKey source)
  match man.vvNew cell with
  | none => man.refer nId cell
  | some nIdExisting =>
    if nIdExisting = nId then some man
    else
      let infoExisting := (man.mapInfo.get? nIdExisting).getD CAddrInfo.null
      let man := man.setInfo nIdExisting infoExisting
      if infoExisting.isTerrible nNow ||
          (1 < infoExisting.nRefCount && info.nRefCount == 0) then do
        let cleared ← man.clearNew cell
        cleared.refer nId cell
      else if info.nRefCount = 0 then man.delete nId
      else some man

omit hash in
/-- What `Add_` makes for an address that it does not know. -/
def createNew (man : CAddrMan) (addr : CAddress) (source : CNetAddr) (nTimePenalty : Int64) :
    Nat × CAddrInfo × CAddrMan :=
  let created := man.create addr source
  let info := { created.2.1 with
    nTime := unsignedTime (signedTime created.2.1.nTime - nTimePenalty) }
  (created.1, info, { created.2.2.setInfo created.1 info with nNew := created.2.2.nNew + 1 })

/-- `Add_`, with its result. -/
def add_ (man : CAddrMan) (addr : CAddress) (source : CNetAddr)
    (nTimePenalty adjustedTime nNow : Int64) (draw : Nat) : Option (Bool × CAddrMan) :=
  if !addr.service.addr.isRoutable then some (false, man)
  else
    match man.find addr.service.addr with
    | some (nId, known) => do
        let info := seenAgain known addr nTimePenalty adjustedTime
        let man := man.setInfo nId info
        if addsBucket info addr draw then do
          let man ← man.enterNew hash nId info source nNow
          pure (false, man)
        else pure (false, man)
    | none => do
        let created := man.createNew addr source nTimePenalty
        let man ← created.2.2.enterNew hash created.1 created.2.1 source nNow
        pure (true, man)

omit hash

def attempt_ (man : CAddrMan) (addr : NetService) (nTime : Int64) : CAddrMan :=
  match man.find addr.addr with
  | none => man
  | some (nId, info) =>
    if info.service ≠ addr then man
    else man.setInfo nId { info with nLastTry := nTime, nAttempts := info.nAttempts + 1 }

def connected_ (man : CAddrMan) (addr : NetService) (nTime : Int64) : CAddrMan :=
  match man.find addr.addr with
  | none => man
  | some (nId, info) =>
    if info.service ≠ addr then man
    else if 20 * 60 < nTime - signedTime info.nTime then
      man.setInfo nId { info with nTime := nTime.toUInt64.toUInt32 }
    else man

/-- The loop of `GetAddr_`, with so many rounds to go and the draw and the time of each. -/
def getAddrLoop (nNodes : Nat) (draw : Nat → Nat) (nNow : Nat → Int64) :
    Nat → CAddrMan → List CAddress → Option (List CAddress × CAddrMan)
  | 0, man, vAddr => some (vAddr, man)
  | rounds + 1, man, vAddr =>
    if nNodes ≤ vAddr.length then some (vAddr, man)
    else do
      let n := man.vRandom.length - (rounds + 1)
      let nRndPos := getRandInt (draw n) (man.vRandom.length - n) + n
      let man ← man.swapRandom n nRndPos
      let nId ← man.vRandom[n]?
      let ai ← man.mapInfo.get? nId
      getAddrLoop nNodes draw nNow rounds man
        (if ai.isTerrible (nNow n) then vAddr else vAddr ++ [ai.toCAddress])

def getAddr_ (man : CAddrMan) (vAddr : List CAddress) (draw : Nat → Nat) (nNow : Nat → Int64) :
    Option (List CAddress × CAddrMan) :=
  getAddrLoop (min (23 * man.vRandom.length / 100) 2500) draw nNow man.vRandom.length man vAddr

/-- What one round of `Select_` draws: a cell, and whether its entry is taken, which depends on
its chance. -/
structure SelectRound where
  nBucket : Nat
  nPos : Nat
  taken : Bool

/-- The loops of `Select_` over a table, up to the draws that are given. -/
def selectLoop (man : CAddrMan) (table : Nat × Nat → Option Nat) (nBuckets : Nat) :
    List SelectRound → Option (Option CAddress)
  | [] => some none
  | round :: rounds =>
    match table (getRandInt round.nBucket nBuckets, getRandInt round.nPos addrmanBucketSize) with
    | none => selectLoop man table nBuckets rounds
    | some nId => do
        let info ← man.mapInfo.get? nId
        if round.taken then pure (some info.toCAddress)
        else selectLoop man table nBuckets rounds

/-- `Select_`, with no address yet where it would draw again. -/
def select_ (man : CAddrMan) (draw : Nat) (rounds : List SelectRound) :
    Option (Option CAddress) :=
  if man.vRandom.length = 0 then some (some CAddress.null)
  else if 0 < man.nTried ∧ (man.nNew = 0 ∨ getRandInt draw 2 = 0) then
    man.selectLoop man.vvTried addrmanTriedBucketCount rounds
  else man.selectLoop man.vvNew addrmanNewBucketCount rounds

end CAddrMan

/-- A call of an operation, with its arguments, its random choices and its times. -/
inductive AddrManCall
  | add (addr : CAddress) (source : CNetAddr) (nTimePenalty adjustedTime nNow : Int64)
      (draw : Nat)
  | good (addr : NetService) (nTime : Int64) (draw : Nat)
  | attempt (addr : NetService) (nTime : Int64)
  | connected (addr : NetService) (nTime : Int64)
  | getAddr (vAddr : List CAddress) (draw : Nat → Nat) (nNow : Nat → Int64)
  | select (draw : Nat) (rounds : List CAddrMan.SelectRound)

namespace CAddrMan

/-- What a call leaves of the manager. -/
def apply (hash : BucketHash) (man : CAddrMan) : AddrManCall → Option CAddrMan
  | .add addr source nTimePenalty adjustedTime nNow draw =>
    (man.add_ hash addr source nTimePenalty adjustedTime nNow draw).map Prod.snd
  | .good addr nTime draw => man.good_ hash addr nTime draw
  | .attempt addr nTime => some (man.attempt_ addr nTime)
  | .connected addr nTime => some (man.connected_ addr nTime)
  | .getAddr vAddr draw nNow => (man.getAddr_ vAddr draw nNow).map Prod.snd
  | .select draw rounds => (man.select_ draw rounds).map fun _ => man

/-- A sequence of calls. -/
def run (hash : BucketHash) (man : CAddrMan) (calls : List AddrManCall) : Option CAddrMan :=
  calls.foldlM (apply hash) man

end CAddrMan

end ColossusCoin
