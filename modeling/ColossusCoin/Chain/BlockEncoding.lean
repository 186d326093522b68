import ColossusCoin.Chain.IndexPersistence
import ColossusCoin.Primitives.CanonicalSizes

/-!
# The encoding of blocks and transactions

What `SerializationOp` writes and reads of headers, blocks and transactions.  The checkpoint of a
header is there for versions above four, and the signature of a block where its second transaction
is a coinstake.  Hashes, and the rounds of an output, are in memory only.
-/

namespace ColossusCoin

open ByteReaders

namespace CTxIn

/-- `Serialize` of an input. -/
def serialize (txin : CTxIn) : List UInt8 :=
  CDiskBlockIndex.writeOutPoint txin.prevout ++ (writeByteVector txin.scriptSig ++
    littleEndian 4 txin.nSequence)

/-- `Unserialize` of an input. -/
def unserialize : Reader CTxIn := do
  let prevout ← CDiskBlockIndex.readOutPoint
  let scriptSig ← readByteVector
  let nSequence ← readLittleEndian 4
  pure { prevout := prevout, scriptSig := scriptSig, nSequence := nSequence }

/-- Every field is in the range of its type. -/
def InRange (txin : CTxIn) : Prop :=
  (txin.prevout.hash < 2 ^ 256 ∧ txin.prevout.n < 2 ^ 32) ∧ txin.nSequence < 2 ^ 32

/-- No vector is beyond `MAX_SIZE`. -/
def Limited (txin : CTxIn) : Prop :=
  txin.scriptSig.length ≤ maxSize

end CTxIn

namespace CTxOut

/-- `Serialize` of an output. -/
def serialize (txout : CTxOut) : List UInt8 :=
  writeSigned 8 txout.nValue ++ writeByteVector txout.scriptPubKey

/-- `Unserialize` of an output. -/
def unserialize : Reader CTxOut := do
  let nValue ← readSigned 8
  let scriptPubKey ← readByteVector
  pure { nValue := nValue, scriptPubKey := scriptPubKey }

/-- Every field is in the range of its type. -/
def InRange (txout : CTxOut) : Prop :=
  -2 ^ 63 ≤ txout.nValue ∧ txout.nValue < 2 ^ 63

/-- No vector is beyond `MAX_SIZE`. -/
def Limited (txout : CTxOut) : Prop :=
  txout.scriptPubKey.length ≤ maxSize

/-- The output with the rounds that a new one has. -/
def reloaded (txout : CTxOut) : CTxOut :=
  { txout with nRounds := -10 }

end CTxOut

namespace CTransaction

/-- `Serialize` of a transaction. -/
def serialize (tx : CTransaction) : List UInt8 :=
  writeSigned 4 tx.nVersion ++ (writeVector CTxIn.serialize tx.vin ++
    (writeVector CTxOut.serialize tx.vout ++ littleEndian 4 tx.nLockTime))

def updateHash (hashes : HeaderHashes) (tx : CTransaction) : CTransaction :=
  { tx with hash := hashes.hash tx.serialize }

/-- `Unserialize` of a transaction. -/
def unserialize (hashes : HeaderHashes) : Reader CTransaction := do
  let nVersion ← readSigned 4
  let vin ← readVector CTxIn.unserialize
  let vout ← readVector CTxOut.unserialize
  let nLockTime ← readLittleEndian 4
  pure (updateHash hashes
    { hash := 0, nVersion := nVersion, vin := vin, vout := vout, nLockTime := nLockTime })

/-- Every field is in the range of its type. -/
structure InRange (tx : CTransaction) : Prop where
  nVersion : -2 ^ 31 ≤ tx.nVersion ∧ tx.nVersion < 2 ^ 31
  vin : ∀ txin ∈ tx.vin, txin.InRange
  vout : ∀ txout ∈ tx.vout, txout.InRange
  nLockTime : tx.nLockTime < 2 ^ 32

/-- No vector is beyond `MAX_SIZE`. -/
structure Limited (tx : CTransaction) : Prop where
  vin : tx.vin.length ≤ maxSize ∧ ∀ txin ∈ tx.vin, txin.Limited
  vout : tx.vout.length ≤ maxSize ∧ ∀ txout ∈ tx.vout, txout.Limited

/-- The transaction with what is in memory only as a new one has it. -/
def reloaded (hashes : HeaderHashes) (tx : CTransaction) : CTransaction :=
  updateHash hashes { tx with vout := tx.vout.map CTxOut.reloaded }

end CTransaction

namespace CBlockHeader

/-- The fields of a header from `nVersion` to `nNonce`. -/
def fixedBytes (header : CBlockHeader) : List UInt8 :=
  writeSigned 4 header.nVersion ++ (littleEndian 32 header.hashPrevBlock ++
    (littleEndian 32 header.hashMerkleRoot ++ (littleEndian 4 header.nTime ++
      (littleEndian 4 header.nBits ++ littleEndian 4 header.nNonce))))

/-- The checkpoint is on the wire. -/
def hasCheckpoint (header : CBlockHeader) : Bool :=
  version4 < header.nVersion

/-- `Serialize` of a header. -/
def serialize (header : CBlockHeader) : List UInt8 :=
  header.fixedBytes ++
    writeIf header.hasCheckpoint (littleEndian 32 header.nAccumulatorCheckpoint)

/-- `GetHash` of the fields of a header. -/
def getHash (hashes : HeaderHashes) (header : CBlockHeader) : Uint256 :=
  if header.nVersion < version5 then hashes.hashQuark header.fixedBytes
  else hashes.hash (header.fixedBytes ++ littleEndian 32 header.nAccumulatorCheckpoint)

/-- The header with the hash of its fields. -/
def hashed (hashes : HeaderHashes) (header : CBlockHeader) : CBlockHeader :=
  { header with hash := header.getHash hashes }

/-- `SetNull`. -/
def null (hashes : HeaderHashes) : CBlockHeader :=
  hashed hashes
    { hash := 0
      nVersion := currentVersion
      hashPrevBlock := 0
      hashMerkleRoot := 0
      nTime := 0
      nBits := 0
      nNonce := 0
      nAccumulatorCheckpoint := 0 }

/-- `Unserialize` into a header. -/
def unserialize (hashes : HeaderHashes) (header : CBlockHeader) : Reader CBlockHeader := do
  let nVersion ← readSigned 4
  let hashPrevBlock ← readLittleEndian 32
  let hashMerkleRoot ← readLittleEndian 32
  let nTime ← readLittleEndian 4
  let nBits ← readLittleEndian 4
  let nNonce ← readLittleEndian 4
  let fixed := { header with
    nVersion := nVersion, hashPrevBlock := hashPrevBlock, hashMerkleRoot := hashMerkleRoot
    nTime := nTime, nBits := nBits, nNonce := nNonce }
  let nAccumulatorCheckpoint ←
    readIf fixed.hasCheckpoint (readLittleEndian 32) header.nAccumulatorCheckpoint
  pure (hashed hashes { fixed with nAccumulatorCheckpoint := nAccumulatorCheckpoint })

/-- Every field is in the range of its type. -/
structure InRange (header : CBlockHeader) : Prop where
  nVersion : -2 ^ 31 ≤ header.nVersion ∧ header.nVersion < 2 ^ 31
  hashPrevBlock : header.hashPrevBlock < 2 ^ 256
  hashMerkleRoot : header.hashMerkleRoot < 2 ^ 256
  nTime : header.nTime < 2 ^ 32
  nBits : header.nBits < 2 ^ 32
  nNonce : header.nNonce < 2 ^ 32
  nAccumulatorCheckpoint : header.nAccumulatorCheckpoint < 2 ^ 256

end CBlockHeader

namespace CBlock

/-- `Serialize` of a block. -/
def serialize (block : CBlock) : List UInt8 :=
  block.toCBlockHeader.serialize ++ (writeVector CTransaction.serialize block.vtx ++
    writeIf block.isProofOfStake (writeByteVector block.vchBlockSig))

/-- `SetNull`. -/
def null (hashes : HeaderHashes) : CBlock where
  toCBlockHeader := CBlockHeader.null hashes
  vtx := []
  vchBlockSig := []

/-- `Unserialize` into a block. -/
def unserialize (hashes : HeaderHashes) (block : CBlock) : Reader CBlock := do
  let header ← block.toCBlockHeader.unserialize hashes
  let vtx ← readVector (CTransaction.unserialize hashes)
  let unsigned : CBlock := { block with toCBlockHeader := header, vtx := vtx }
  let vchBlockSig ← readIf unsigned.isProofOfStake readByteVector block.vchBlockSig
  pure { unsigned with vchBlockSig := vchBlockSig }

/-- Every field is in the range of its type. -/
structure InRange (block : CBlock) : Prop where
  header : block.toCBlockHeader.InRange
  vtx : ∀ tx ∈ block.vtx, tx.InRange

/-- No vector is beyond `MAX_SIZE`. -/
structure Limited (block : CBlock) : Prop where
  vtx : block.vtx.length ≤ maxSize ∧ ∀ tx ∈ block.vtx, tx.Limited
  vchBlockSig : block.vchBlockSig.length ≤ maxSize

/-- The block with what is in memory only as a new one has it. -/
def reloaded (hashes : HeaderHashes) (block : CBlock) : CBlock where
  toCBlockHeader := block.toCBlockHeader.hashed hashes
  vtx := block.vtx.map (CTransaction.reloaded hashes)
  vchBlockSig := block.vchBlockSig

end CBlock

end ColossusCoin
