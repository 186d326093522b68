import ColossusCoin.Validation.TransactionLookup

/-!
# The kernel of a proof of stake

The check of a coinstake's first input against the stake modifier that applies to the
output it spends.  The modifier is looked for on the active chain, upwards from the block
of that output, whatever block the coinstake belongs to.  The logging is left out, and so
is the search for a time that the wallet runs when it stakes.
-/

namespace ColossusCoin

/-- The fields of `CBlockIndex` that the kernel reads. -/
structure KernelIndex where
  hash : Uint256
  nHeight : Nat
  nTime : Nat
  nStakeModifier : Nat
  /-- `GeneratedStakeModifier`. -/
  generatedStakeModifier : Bool
  deriving DecidableEq, Repr

/-- What a node goes by when it checks a proof of stake.  The active chain is listed from
the genesis block up, each entry at its height. -/
structure StakeNode where
  store : TransactionStore
  mempool : CTxMemPool
  mapBlockIndex : Uint256 → Option KernelIndex
  chainActive : List KernelIndex
  nHeight_eq : ∀ (height : Nat) (pindex : KernelIndex),
    chainActive[height]? = some pindex → pindex.nHeight = height
  chainActive_indexed : ∀ pindex ∈ chainActive, mapBlockIndex pindex.hash = some pindex
  store_chainActive : ∀ height : Nat,
    store.chainActive height = chainActive[height]?.map KernelIndex.hash

/-- `chainActive.Height()`. -/
def StakeNode.height (node : StakeNode) : Int :=
  (node.chainActive.length : Int) - 1

/-- The functions that the kernel calls: the script interpreter with the standard flags,
the hash of a stake, and what a read past the last output of a transaction yields. -/
structure KernelLib where
  verifyScript : CTransaction → Nat → CScript → CScript → Bool
  /-- The hash of the stake modifier, the time of the block of the output, the position and
  the hash of the output and the time of the stake. -/
  stakeHash : Nat → Nat → Nat → Uint256 → Nat → Uint256
  pastEnd : CTransaction → Nat → CTxOut

/-- `nModifierInterval`, the same on all networks. -/
def nModifierInterval : Nat := 60

/-- `nModifierIntervalRatio`, the same on all networks. -/
def nModifierIntervalRatio : Nat := 3

def CChainParams.getMinStakeAge (params : CChainParams) (nTargetHeight : Int) : Int :=
  if params.testnet then 60 * 60 * 8
  else if 300000 ≤ nTargetHeight then 60 * 60 * 8
  else 60 * 60 * 24 * 7

def getStakeModifierSelectionIntervalSection (nSection : Nat) : Nat :=
  nModifierInterval * 63 / (63 + (63 - nSection) * (nModifierIntervalRatio - 1))

def getStakeModifierSelectionInterval : Nat :=
  ((List.range 64).map getStakeModifierSelectionIntervalSection).sum

/-- The loop of `GetKernelStakeModifier`, over the entries of the active chain above the
current one: the entry whose modifier is used, `none` where the chain ends too early. -/
def findKernelModifier (nTimeStop : Nat) :
    (pindex : KernelIndex) → (nStakeModifierTime : Nat) → List KernelIndex →
      Option KernelIndex
  | pindex, nStakeModifierTime, [] =>
    if nStakeModifierTime < nTimeStop then none else some pindex
  | pindex, nStakeModifierTime, pindexNext :: rest =>
    if nStakeModifierTime < nTimeStop then
      findKernelModifier nTimeStop pindexNext
        (if pindexNext.generatedStakeModifier then pindexNext.nTime
        else nStakeModifierTime) rest
    else some pindex

def StakeNode.getKernelStakeModifier (node : StakeNode) (hashBlockFrom : Uint256) :
    Option Nat :=
  match node.mapBlockIndex hashBlockFrom with
  | none => none
  | some pindexFrom =>
    (findKernelModifier (pindexFrom.nTime + getStakeModifierSelectionInterval) pindexFrom
      pindexFrom.nTime (node.chainActive.drop (pindexFrom.nHeight + 1))).map
        KernelIndex.nStakeModifier

/-- `stakeTargetHit`, with the wrap-around of the conversion and of the product. -/
def stakeTargetHit (hashProofOfStake : Uint256) (nValueIn : Int)
    (bnTargetPerCoinDay : Uint256) : Bool :=
  let bnCoinDayWeight := (nValueIn % 2 ^ 64).toNat / 10000
  hashProofOfStake < bnCoinDayWeight * bnTargetPerCoinDay % 2 ^ 256

/-- `CheckStakeKernelHash` with `fCheck`: the verdict and `hashProofOfStake`, which keeps
its value where the check fails before the hash. -/
def StakeNode.checkStakeKernelHash (params : CChainParams) (lib : KernelLib)
    (node : StakeNode) (nBits : Nat) (blockFrom : CBlock) (txPrev : CTransaction)
    (prevout : COutPoint) (nTimeTx : Nat) (hashProofOfStake : Uint256) : Bool × Uint256 :=
  let nValueIn := (txPrev.vout[prevout.n]?.getD (lib.pastEnd txPrev prevout.n)).nValue
  let nTimeBlockFrom := blockFrom.nTime
  if nTimeTx < nTimeBlockFrom then (false, hashProofOfStake)
  else if (nTimeTx : Int) < nTimeBlockFrom + params.getMinStakeAge (node.height + 1) then
    (false, hashProofOfStake)
  else
    match node.getKernelStakeModifier blockFrom.hash with
    | none => (false, hashProofOfStake)
    | some nStakeModifier =>
      let hashProof :=
        lib.stakeHash nStakeModifier nTimeBlockFrom prevout.n prevout.hash nTimeTx
      (stakeTargetHit hashProof nValueIn (setCompact nBits).1, hashProof)

/-- `CheckProofOfStake`: the verdict and `hashProofOfStake`. -/
def StakeNode.checkProofOfStake (params : CChainParams) (lib : KernelLib)
    (node : StakeNode) (block : CBlock) (hashProofOfStake : Uint256) : Bool × Uint256 :=
  match block.vtx with
  | _ :: tx :: _ =>
    if !tx.isCoinStake then (false, hashProofOfStake)
    else
      match tx.vin with
      | [] => (false, hashProofOfStake)
      | txin :: _ =>
        match getTransaction node.store node.mempool txin.prevout.hash true with
        | none => (false, hashProofOfStake)
        | some (txPrev, hashBlock) =>
          let txout :=
            txPrev.vout[txin.prevout.n]?.getD (lib.pastEnd txPrev txin.prevout.n)
          if !lib.verifyScript tx 0 txin.scriptSig txout.scriptPubKey then
            (false, hashProofOfStake)
          else
            match node.mapBlockIndex hashBlock with
            | none => (false, hashProofOfStake)
            | some pindex =>
              match node.store.readBlockFromDisk pindex.hash with
              | none => (false, hashProofOfStake)
              | some blockprev =>
                node.checkStakeKernelHash params lib block.nBits blockprev txPrev
                  txin.prevout block.nTime hashProofOfStake
  | _ => (false, hashProofOfStake)

end ColossusCoin
