import ColossusCoin.Primitives.Block
import ColossusCoin.Primitives.Serialize

/-!
# Partial merkle trees

`CPartialMerkleTree`: the nodes of a merkle tree on the way to the matched transactions, as a
string of bits and one of hashes in the order of a depth-first walk.
-/

namespace ColossusCoin

open ByteReaders

structure CPartialMerkleTree where
  nTransactions : Nat
  vBits : List Bool
  vHash : List Uint256
  fBad : Bool
  deriving DecidableEq, Repr

namespace CPartialMerkleTree

/-- `CalcTreeWidth`, in 32 bits. -/
def calcTreeWidth (nTransactions height : Nat) : Nat :=
  (nTransactions + 2 ^ height - 1) % 2 ^ 32 / 2 ^ height

/-- The loop that finds the height of the tree; at 32 there are no more shifts of an `int`. -/
def heightLoop (nTransactions : Nat) : Nat → Nat → Nat
  | 0, nHeight => nHeight
  | fuel + 1, nHeight =>
    if 1 < calcTreeWidth nTransactions nHeight then
      heightLoop nTransactions fuel (nHeight + 1)
    else nHeight

/-- The height of the tree. -/
def treeHeight (nTransactions : Nat) : Nat :=
  heightLoop nTransactions 32 0

section Build

variable (hashPair : Uint256 → Uint256 → Uint256) (vTxid : List Uint256) (vMatch : List Bool)

def calcHash (nTransactions : Nat) : Nat → Nat → Uint256
  | 0, pos => vTxid.getD pos 0
  | height + 1, pos =>
    let left := calcHash nTransactions height (pos * 2)
    let right :=
      if pos * 2 + 1 < calcTreeWidth nTransactions height then
        calcHash nTransactions height (pos * 2 + 1)
      else left
    hashPair left right

/-- Whether a node is the parent of a matched transaction. -/
def isParentOfMatch (nTransactions height pos : Nat) : Bool :=
  let start := pos * 2 ^ height
  (List.range' start (min ((pos + 1) * 2 ^ height) nTransactions - start)).any fun p =>
    vMatch.getD p false

/-- Store a flag bit. -/
def pushBit (tree : CPartialMerkleTree) (bit : Bool) : CPartialMerkleTree :=
  { tree with vBits := tree.vBits ++ [bit] }

/-- Store a hash. -/
def pushHash (tree : CPartialMerkleTree) (hash : Uint256) : CPartialMerkleTree :=
  { tree with vHash := tree.vHash ++ [hash] }

def traverseAndBuild : Nat → Nat → CPartialMerkleTree → CPartialMerkleTree
  | 0, pos, tree =>
    (tree.pushBit (isParentOfMatch vMatch tree.nTransactions 0 pos)).pushHash
      (calcHash hashPair vTxid tree.nTransactions 0 pos)
  | height + 1, pos, tree =>
    if isParentOfMatch vMatch tree.nTransactions (height + 1) pos then
      let left := traverseAndBuild height (pos * 2) (tree.pushBit true)
      if pos * 2 + 1 < calcTreeWidth tree.nTransactions height then
        traverseAndBuild height (pos * 2 + 1) left
      else left
    else
      (tree.pushBit false).pushHash (calcHash hashPair vTxid tree.nTransactions (height + 1) pos)

/-- The constructor from the hashes of a block and the mask of those to be proved. -/
def build : CPartialMerkleTree :=
  let nTransactions := vTxid.length % 2 ^ 32
  traverseAndBuild hashPair vTxid vMatch (treeHeight nTransactions) 0
    { nTransactions := nTransactions, vBits := [], vHash := [], fBad := false }

end Build

/-- What `TraverseAndExtract` keeps by reference. -/
@[ext]
structure Extraction where
  nBitsUsed : Nat
  nHashUsed : Nat
  vMatch : List Uint256
  fBad : Bool
  deriving DecidableEq, Repr

section Extract

variable (hashPair : Uint256 → Uint256 → Uint256) (tree : CPartialMerkleTree)

/-- Use the next stored hash; a matched one is a transaction to be reported. -/
def useHash (isMatched : Bool) (state : Extraction) : Uint256 × Extraction :=
  match tree.vHash[state.nHashUsed]? with
  | none => (0, { state with fBad := true })
  | some hash =>
    (hash, { state with
      nHashUsed := state.nHashUsed + 1
      vMatch := if isMatched then state.vMatch ++ [hash] else state.vMatch })

def traverseAndExtract : Nat → Nat → Extraction → Uint256 × Extraction
  | 0, _, state =>
    match tree.vBits[state.nBitsUsed]? with
    | none => (0, { state with fBad := true })
    | some fParentOfMatch =>
      tree.useHash fParentOfMatch { state with nBitsUsed := state.nBitsUsed + 1 }
  | height + 1, pos, state =>
    match tree.vBits[state.nBitsUsed]? with
    | none => (0, { state with fBad := true })
    | some false => tree.useHash false { state with nBitsUsed := state.nBitsUsed + 1 }
    | some true =>
      let left := traverseAndExtract height (pos * 2)
        { state with nBitsUsed := state.nBitsUsed + 1 }
      let right :=
        if pos * 2 + 1 < calcTreeWidth tree.nTransactions height then
          traverseAndExtract height (pos * 2 + 1) left.2
        else left
      (hashPair left.1 right.1, right.2)

/-- `ExtractMatches`: the merkle root, or null where it fails, and what is in `vMatch` then. -/
def extractMatches : Uint256 × List Uint256 :=
  if tree.nTransactions = 0 then (0, [])
  else if maxBlockSizeCurrent / 60 < tree.nTransactions then (0, [])
  else if tree.nTransactions < tree.vHash.length then (0, [])
  else if tree.vBits.length < tree.vHash.length then (0, [])
  else
    let traversed := tree.traverseAndExtract hashPair (treeHeight tree.nTransactions) 0
      { nBitsUsed := 0, nHashUsed := 0, vMatch := [], fBad := tree.fBad }
    if traversed.2.fBad then (0, traversed.2.vMatch)
    else if (traversed.2.nBitsUsed + 7) / 8 ≠ (tree.vBits.length + 7) / 8 then
      (0, traversed.2.vMatch)
    else if traversed.2.nHashUsed ≠ tree.vHash.length then (0, traversed.2.vMatch)
    else (traversed.1, traversed.2.vMatch)

end Extract

/-- Serialization; a hash is written with its lowest byte first. -/
def serialize (tree : CPartialMerkleTree) : List UInt8 :=
  littleEndian 4 tree.nTransactions ++
    (writeVector (littleEndian 32) tree.vHash ++ writeByteVector (packFlags tree.vBits))

/-- Deserialization. -/
def unserialize : Reader CPartialMerkleTree := do
  let nTransactions ← readLittleEndian 4
  let vHash ← readVector (readLittleEndian 32)
  let vBytes ← readByteVector
  pure { nTransactions := nTransactions, vBits := unpackFlags vBytes, vHash := vHash, fBad := false }

/-- What is written is read back, with the last byte of flags filled up. -/
theorem reads_serialize
    {tree : CPartialMerkleTree}
    (counted : tree.nTransactions < 2 ^ 32)
    (hashes : ∀ hash ∈ tree.vHash, hash < 2 ^ 256)
    (fewHashes : tree.vHash.length ≤ maxSize)
    (fewBits : (tree.vBits.length + 7) / 8 ≤ maxSize) :
    Reads unserialize tree.serialize
      { tree with
        vBits := tree.vBits ++
          List.replicate (8 * ((tree.vBits.length + 7) / 8) - tree.vBits.length) false
        fBad := false } := by
  rw [← unpackFlags_packFlags]
  have count : Reads (readLittleEndian 4) (littleEndian 4 tree.nTransactions)
      tree.nTransactions := reads_littleEndian counted
  have vector : Reads (readVector (readLittleEndian 32))
      (writeVector (littleEndian 32) tree.vHash) tree.vHash := by
    refine reads_writeVector fewHashes fun hash member => reads_littleEndian ?_
    exact hashes hash member
  have flags : Reads readByteVector (writeByteVector (packFlags tree.vBits))
      (packFlags tree.vBits) :=
    reads_writeByteVector (by rwa [length_packFlags])
  exact count.bind _ (vector.bind _ (flags.map fun vBytes =>
    CPartialMerkleTree.mk tree.nTransactions (unpackFlags vBytes) tree.vHash false))

end CPartialMerkleTree

end ColossusCoin
