import ColossusCoin.Library.SortedMap
import ColossusCoin.Primitives.Block
import ColossusCoin.Primitives.Serialize

/-!
# Block-index entries on disk

What `CDiskBlockIndex` writes of an entry, and what `LoadBlockIndexGuts` makes of it.  Pointers
to entries are the hashes of their blocks; a null pointer is the null hash.
-/

namespace ColossusCoin

open ByteReaders

/-- The fields of `CBlockIndex` that are meant to last.  The keys of the supply are the values
of the denominations. -/
@[ext]
structure LastingIndex where
  nHeight : Int
  nStatus : Nat
  nTx : Nat
  nFile : Int
  nDataPos : Nat
  nUndoPos : Nat
  nMint : Int
  nMoneySupply : Int
  nFlags : Nat
  nStakeModifier : Nat
  prevoutStake : COutPoint
  nStakeTime : Nat
  hashProofOfStake : Uint256
  nVersion : Int
  hashMerkleRoot : Uint256
  nTime : Nat
  nBits : Nat
  nNonce : Nat
  nAccumulatorCheckpoint : Uint256
  mapZerocoinSupply : SortedMap Int Int
  vMintDenominationsInBlock : List CoinDenomination

namespace LastingIndex

/-- The supply of each denomination that `SetNull` starts with. -/
def nullSupply : SortedMap Int Int where
  entries := CoinDenomination.zerocoinDenomList.map fun denom => (denom.toInt, 0)
  sorted := by decide

/-- `SetNull`. -/
def null : LastingIndex where
  nHeight := 0
  nStatus := 0
  nTx := 0
  nFile := 0
  nDataPos := 0
  nUndoPos := 0
  nMint := 0
  nMoneySupply := 0
  nFlags := 0
  nStakeModifier := 0
  prevoutStake := COutPoint.null
  nStakeTime := 0
  hashProofOfStake := 0
  nVersion := 0
  hashMerkleRoot := 0
  nTime := 0
  nBits := 0
  nNonce := 0
  nAccumulatorCheckpoint := 0
  mapZerocoinSupply := nullSupply
  vMintDenominationsInBlock := []

/-- `nStatus & BLOCK_HAVE_DATA`. -/
def haveData (index : LastingIndex) : Bool :=
  index.nStatus &&& 8 != 0

/-- `nStatus & BLOCK_HAVE_UNDO`. -/
def haveUndo (index : LastingIndex) : Bool :=
  index.nStatus &&& 16 != 0

def isProofOfStake (index : LastingIndex) : Bool :=
  index.nFlags &&& 1 != 0

/-- The fields that come with zerocoins are written. -/
def hasZerocoins (index : LastingIndex) : Bool :=
  CBlockHeader.version4 < index.nVersion

/-- The bytes of a header from `nVersion` to `nNonce`. -/
def headerBytes (index : LastingIndex) (hashPrevBlock : Uint256) : List UInt8 :=
  writeSigned 4 index.nVersion ++ (littleEndian 32 hashPrevBlock ++
    (littleEndian 32 index.hashMerkleRoot ++ (littleEndian 4 index.nTime ++
      (littleEndian 4 index.nBits ++ littleEndian 4 index.nNonce))))

end LastingIndex

/-- The hashes of headers: `HashQuark` and `Hash`. -/
structure HeaderHashes where
  hashQuark : List UInt8 → Uint256
  hash : List UInt8 → Uint256

/-- `CBlockHeader::GetHash`. -/
def HeaderHashes.getHash (hashes : HeaderHashes) (index : LastingIndex)
    (hashPrevBlock : Uint256) : Uint256 :=
  if index.nVersion < CBlockHeader.version5 then
    hashes.hashQuark (index.headerBytes hashPrevBlock)
  else
    hashes.hash (index.headerBytes hashPrevBlock ++ littleEndian 32 index.nAccumulatorCheckpoint)

/-- `CBlockIndex`, as far as it is meant to last. -/
structure IndexEntry extends LastingIndex where
  pprev : Uint256
  pnext : Uint256

/-- The hash of the block of an entry, from its `GetBlockHeader`. -/
def IndexEntry.getBlockHash (hashes : HeaderHashes) (entry : IndexEntry) : Uint256 :=
  hashes.getHash entry.toLastingIndex entry.pprev

structure CDiskBlockIndex extends LastingIndex where
  hashPrev : Uint256
  hashNext : Uint256

namespace CDiskBlockIndex

/-- `CDiskBlockIndex()`. -/
def null : CDiskBlockIndex where
  toLastingIndex := LastingIndex.null
  hashPrev := 0
  hashNext := 0

/-- `CDiskBlockIndex(CBlockIndex*)`, which leaves `hashNext` null. -/
def ofEntry (entry : IndexEntry) : CDiskBlockIndex where
  toLastingIndex := entry.toLastingIndex
  hashPrev := entry.pprev
  hashNext := 0

def getBlockHash (hashes : HeaderHashes) (index : CDiskBlockIndex) : Uint256 :=
  hashes.getHash index.toLastingIndex index.hashPrev

/-- The height, the status and the positions in the files. -/
def writePositions (index : CDiskBlockIndex) : List UInt8 :=
  writeVarInt (varIntOfInt index.nHeight) ++ (writeVarInt index.nStatus ++
    (writeVarInt index.nTx ++
      (writeIf (index.haveData || index.haveUndo) (writeVarInt (varIntOfInt index.nFile)) ++
        (writeIf index.haveData (writeVarInt index.nDataPos) ++
          writeIf index.haveUndo (writeVarInt index.nUndoPos)))))

/-- `COutPoint`, byte by byte. -/
def writeOutPoint (outpoint : COutPoint) : List UInt8 :=
  littleEndian 32 outpoint.hash ++ littleEndian 4 outpoint.n

/-- The supply and what is known of the stake; `hashProofOfStake` is not written. -/
def writeStake (index : CDiskBlockIndex) : List UInt8 :=
  writeSigned 8 index.nMint ++ (writeSigned 8 index.nMoneySupply ++
    (littleEndian 4 index.nFlags ++ (littleEndian 8 index.nStakeModifier ++
      (writeIf index.isProofOfStake (writeOutPoint index.prevoutStake) ++
        writeIf index.isProofOfStake (littleEndian 4 index.nStakeTime)))))

/-- The block header, with the link to the next block. -/
def writeHeader (index : CDiskBlockIndex) : List UInt8 :=
  writeSigned 4 index.nVersion ++ (littleEndian 32 index.hashPrev ++
    (littleEndian 32 index.hashNext ++ (littleEndian 32 index.hashMerkleRoot ++
      (littleEndian 4 index.nTime ++ (littleEndian 4 index.nBits ++
        littleEndian 4 index.nNonce)))))

/-- `CoinDenomination`, by its value. -/
def writeDenomination (denom : CoinDenomination) : List UInt8 :=
  writeSigned 4 denom.toInt

/-- An entry of the supply. -/
def writeSupply (entry : Int × Int) : List UInt8 :=
  writeSigned 4 entry.1 ++ writeSigned 8 entry.2

/-- What blocks have since zerocoins. -/
def writeZerocoins (index : CDiskBlockIndex) : List UInt8 :=
  writeIf index.hasZerocoins (littleEndian 32 index.nAccumulatorCheckpoint) ++
    (writeIf index.hasZerocoins (writeVector writeSupply index.mapZerocoinSupply.entries) ++
      writeIf index.hasZerocoins
        (writeVector writeDenomination index.vMintDenominationsInBlock))

/-- Serialization to disk by a client of some version. -/
def serialize (clientVersion : Nat) (index : CDiskBlockIndex) : List UInt8 :=
  writeVarInt clientVersion ++ (index.writePositions ++ (index.writeStake ++
    (index.writeHeader ++ index.writeZerocoins)))

/-- Read the height, the status and the positions into an entry. -/
def readPositions (index : CDiskBlockIndex) : Reader CDiskBlockIndex := do
  let nHeight ← readVarIntSigned
  let nStatus ← readVarInt 32
  let nTx ← readVarInt 32
  let status := { index with nHeight := nHeight, nStatus := nStatus, nTx := nTx }
  let nFile ← readIf (status.haveData || status.haveUndo) readVarIntSigned index.nFile
  let nDataPos ← readIf status.haveData (readVarInt 32) index.nDataPos
  let nUndoPos ← readIf status.haveUndo (readVarInt 32) index.nUndoPos
  pure { status with nFile := nFile, nDataPos := nDataPos, nUndoPos := nUndoPos }

def readOutPoint : Reader COutPoint := do
  let hash ← readLittleEndian 32
  let n ← readLittleEndian 4
  pure { hash := hash, n := n }

/-- Read the supply and what is known of the stake; for proof-of-work that is cleared. -/
def readStake (index : CDiskBlockIndex) : Reader CDiskBlockIndex := do
  let nMint ← readSigned 8
  let nMoneySupply ← readSigned 8
  let nFlags ← readLittleEndian 4
  let nStakeModifier ← readLittleEndian 8
  let flags := { index with
    nMint := nMint, nMoneySupply := nMoneySupply, nFlags := nFlags
    nStakeModifier := nStakeModifier }
  let prevoutStake ← readIf flags.isProofOfStake readOutPoint COutPoint.null
  let nStakeTime ← readIf flags.isProofOfStake (readLittleEndian 4) 0
  pure { flags with
    prevoutStake := prevoutStake, nStakeTime := nStakeTime
    hashProofOfStake := if flags.isProofOfStake then index.hashProofOfStake else 0 }

/-- Read the block header. -/
def readHeader (index : CDiskBlockIndex) : Reader CDiskBlockIndex := do
  let nVersion ← readSigned 4
  let hashPrev ← readLittleEndian 32
  let hashNext ← readLittleEndian 32
  let hashMerkleRoot ← readLittleEndian 32
  let nTime ← readLittleEndian 4
  let nBits ← readLittleEndian 4
  let nNonce ← readLittleEndian 4
  pure { index with
    nVersion := nVersion, hashPrev := hashPrev, hashNext := hashNext
    hashMerkleRoot := hashMerkleRoot, nTime := nTime, nBits := nBits, nNonce := nNonce }

def readDenomination : Reader CoinDenomination := do
  let f ← readSigned 4
  pure (CoinDenomination.ofInt f)

def readSupply : Reader (Int × Int) := do
  let denom ← readDenomination
  let value ← readSigned 8
  pure (denom.toInt, value)

/-- `std::map::insert`, which leaves the value that is there. -/
def insertSupply (supply : SortedMap Int Int) (entry : Int × Int) : SortedMap Int Int :=
  if supply.contains entry.1 then supply else supply.insert entry.1 entry.2

/-- `Unserialize` of the map of supplies. -/
def readSupplies : Reader (SortedMap Int Int) := do
  let entries ← readVector readSupply
  pure (entries.foldl insertSupply SortedMap.empty)

/-- Read what blocks have since zerocoins. -/
def readZerocoins (index : CDiskBlockIndex) : Reader CDiskBlockIndex := do
  let nAccumulatorCheckpoint ←
    readIf index.hasZerocoins (readLittleEndian 32) index.nAccumulatorCheckpoint
  let mapZerocoinSupply ← readIf index.hasZerocoins readSupplies index.mapZerocoinSupply
  let vMintDenominationsInBlock ←
    readIf index.hasZerocoins (readVector readDenomination) index.vMintDenominationsInBlock
  pure { index with
    nAccumulatorCheckpoint := nAccumulatorCheckpoint
    mapZerocoinSupply := mapZerocoinSupply
    vMintDenominationsInBlock := vMintDenominationsInBlock }

/-- Deserialization into an entry. -/
def unserialize (index : CDiskBlockIndex) : Reader CDiskBlockIndex := do
  let _ ← readVarIntSigned
  let index ← readPositions index
  let index ← readStake index
  let index ← readHeader index
  readZerocoins index

end CDiskBlockIndex

/-- `LoadBlockIndexGuts` on one value, up to the checks, which change none of these fields: the
hash that the entry is inserted under, and the entry.  There is no entry under the null hash. -/
def loadBlockIndexGuts (hashes : HeaderHashes) (ssValue : List UInt8) :
    Option (Uint256 × IndexEntry) := do
  let (diskindex, _) ← (CDiskBlockIndex.unserialize CDiskBlockIndex.null).run ssValue
  if diskindex.getBlockHash hashes = 0 then none
  else
    some (diskindex.getBlockHash hashes,
      { toLastingIndex := diskindex.toLastingIndex
        pprev := diskindex.hashPrev
        pnext := diskindex.hashNext })

end ColossusCoin
