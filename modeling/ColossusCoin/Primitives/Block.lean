import ColossusCoin.ChainParams
import ColossusCoin.Zerocoin.Denominations

/-!
# Blocks and block-index entries

Block headers, blocks with their merkle roots and serialized sizes, and the
entry that the node keeps for each block it knows.  As with transactions, the
hash of a header is carried as a field.
-/

namespace ColossusCoin

def maxBlockSizeCurrent : Nat := 2000000

structure CBlockHeader where
  hash : Uint256
  nVersion : Int
  hashPrevBlock : Uint256
  hashMerkleRoot : Uint256
  nTime : Nat
  nBits : Nat
  nNonce : Nat
  nAccumulatorCheckpoint : Uint256
  deriving DecidableEq, Repr

namespace CBlockHeader

def version2 : Int := 2

def version3 : Int := 3

/-- `VERSION4`: new budget percent and masternode see-saw reward. -/
def version4 : Int := 4

/-- `VERSION5`: zerocoins. -/
def version5 : Int := 5

/-- `VERSION6`: single superblock, development fund, 108M creation. -/
def version6 : Int := 6

/-- `CURRENT_VERSION`, which is `VERSION7`. -/
def currentVersion : Int := 7

/-- Serialized size of a header. -/
def getSerializeSize (header : CBlockHeader) : Nat :=
  if version4 < header.nVersion then 112 else 80

end CBlockHeader

structure CBlock extends CBlockHeader where
  vtx : List CTransaction
  vchBlockSig : List UInt8
  deriving DecidableEq, Repr

namespace CBlock

/-- `CBlock::IsProofOfStake`. -/
def isProofOfStake (block : CBlock) : Bool :=
  match block.vtx with
  | _ :: second :: _ => second.isCoinStake
  | _ => false

/-- `CBlock::IsProofOfWork`. -/
def isProofOfWork (block : CBlock) : Bool :=
  !block.isProofOfStake

/-- `GetSerializeSize` of a block; the signature belongs to blocks whose second
transaction is a coinstake. -/
def getSerializeSize (block : CBlock) : Nat :=
  block.toCBlockHeader.getSerializeSize +
    (CTransaction.compactSize block.vtx.length +
      (block.vtx.map CTransaction.getSerializeSize).sum) +
    (if block.isProofOfStake then
      CTransaction.compactSize block.vchBlockSig.length + block.vchBlockSig.length
    else 0)

/-- One level of the merkle tree from the one below; a last hash without a
partner is paired with itself. -/
def merkleLevel (hashPair : Uint256 → Uint256 → Uint256) :
    List Uint256 → List Uint256
  | [] => []
  | [last] => [hashPair last last]
  | left :: right :: rest => hashPair left right :: merkleLevel hashPair rest

/-- Two identical hashes stand at the end of a level, as a pair. -/
def levelMutated : List Uint256 → Bool
  | [left, right] => left == right
  | _ :: _ :: rest => levelMutated rest
  | _ => false

/-- The loop of `BuildMerkleTree`; each level is shorter than the one below, so
the number of transactions is fuel enough. -/
def merkleLoop (hashPair : Uint256 → Uint256 → Uint256) :
    Nat → List Uint256 → Bool → Uint256 × Bool
  | _, [], mutated => (0, mutated)
  | _, [root], mutated => (root, mutated)
  | 0, root :: _, mutated => (root, mutated)
  | fuel + 1, level, mutated =>
    merkleLoop hashPair fuel (merkleLevel hashPair level)
      (mutated || levelMutated level)

/-- `BuildMerkleTree`: the root, and whether a mutation was detected. -/
def buildMerkleTree (hashPair : Uint256 → Uint256 → Uint256) (block : CBlock) :
    Uint256 × Bool :=
  merkleLoop hashPair block.vtx.length (block.vtx.map CTransaction.hash) false

end CBlock

/-- `nStatus` of a block-index entry: the validity level and the flags. -/
structure BlockStatus where
  validity : Nat
  haveData : Bool
  haveUndo : Bool
  failedValid : Bool
  failedChild : Bool
  deriving DecidableEq, Repr

def blockValidTransactions : Nat := 3

def blockValidScripts : Nat := 5

namespace BlockStatus

/-- `BLOCK_FAILED_MASK`. -/
def failed (nStatus : BlockStatus) : Bool :=
  nStatus.failedValid || nStatus.failedChild

/-- `IsValid` of an entry, up to a level. -/
def isValid (nStatus : BlockStatus) (nUpTo : Nat) : Bool :=
  !nStatus.failed && nUpTo ≤ nStatus.validity

/-- `RaiseValidity` of an entry, for its effect. -/
def raiseValidity (nStatus : BlockStatus) (nUpTo : Nat) : BlockStatus :=
  if nStatus.failed then nStatus
  else { nStatus with validity := max nStatus.validity nUpTo }

@[simp] theorem haveData_raiseValidity (nStatus : BlockStatus) (nUpTo : Nat) :
    (nStatus.raiseValidity nUpTo).haveData = nStatus.haveData := by
  unfold raiseValidity
  split_ifs <;> rfl

@[simp] theorem failedValid_raiseValidity (nStatus : BlockStatus) (nUpTo : Nat) :
    (nStatus.raiseValidity nUpTo).failedValid = nStatus.failedValid := by
  unfold raiseValidity
  split_ifs <;> rfl

@[simp] theorem failedChild_raiseValidity (nStatus : BlockStatus) (nUpTo : Nat) :
    (nStatus.raiseValidity nUpTo).failedChild = nStatus.failedChild := by
  unfold raiseValidity
  split_ifs <;> rfl

theorem le_raiseValidity (nStatus : BlockStatus) (nUpTo : Nat) :
    nStatus.validity ≤ (nStatus.raiseValidity nUpTo).validity := by
  unfold raiseValidity
  split_ifs
  · exact Nat.le_refl _
  · exact Nat.le_max_left _ _

theorem raiseValidity_of_valid
    {nStatus : BlockStatus}
    (valid : nStatus.failed = false)
    (nUpTo : Nat) :
    nUpTo ≤ (nStatus.raiseValidity nUpTo).validity := by
  simp only [raiseValidity, valid, Bool.false_eq_true, if_false]
  exact Nat.le_max_right _ _

end BlockStatus

/-- `CBlockIndex`, with the fields that connecting blocks reads and writes.
`pprev` is passed beside an entry where it is needed. -/
structure CBlockIndex where
  hash : Uint256
  nHeight : Int
  nVersion : Int
  nTime : Nat
  nBits : Nat
  nAccumulatorCheckpoint : Uint256
  nStatus : BlockStatus
  nUndoPos : Nat
  nMint : Int
  nMoneySupply : Int
  mapZerocoinSupply : CoinDenomination → Int
  vMintDenominationsInBlock : List CoinDenomination

def blockValidTree : Nat := 2

/-- The entry that `AddToBlockIndex` makes for a block at a height. -/
def CBlockIndex.ofBlock (block : CBlock) (nHeight : Int) : CBlockIndex where
  hash := block.hash
  nHeight := nHeight
  nVersion := block.nVersion
  nTime := block.nTime
  nBits := block.nBits
  nAccumulatorCheckpoint :=
    if CBlockHeader.version4 < block.nVersion then block.nAccumulatorCheckpoint else 0
  nStatus := ⟨blockValidTree, false, false, false, false⟩
  nUndoPos := 0
  nMint := 0
  nMoneySupply := 0
  mapZerocoinSupply := fun _ => 0
  vMintDenominationsInBlock := []

/-- `CBlockIndex::IsSuperMajority`, over an entry and its ancestors. -/
def isSuperMajority (params : CChainParams) (minVersion : Int)
    (pstart : List CBlockIndex) (nRequired : Nat) : Bool :=
  nRequired ≤ ((pstart.take params.nToCheckBlockUpgradeMajority).filter fun pindex =>
    minVersion ≤ pindex.nVersion).length

end ColossusCoin
