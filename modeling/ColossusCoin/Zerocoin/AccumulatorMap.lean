import ColossusCoin.Zerocoin.Checkpoints
import ColossusCoin.Zerocoin.Supply

/-!
# Accumulators of the minted coins

A block at a height that is a multiple of ten carries a checkpoint of the accumulators, which
is computed from the checkpoint before it and the mints of ten earlier blocks.
-/

namespace ColossusCoin

open CoinDenomination

/-- What accumulators are made of: the value they start from, `Accumulator::increment` and
`GetChecksum`.  The values are numbers modulo a product of primes in the source, and of any
type here. -/
structure AccumulatorKit (Value : Type) where
  accumulatorBase : Value
  increment : Value → CBigNum → Value
  getChecksum : Value → Nat
  getChecksum_lt : ∀ bnValue, getChecksum bnValue < 2 ^ 32

/-- The accumulator values in the database and in memory, each under its checksum. -/
@[ext]
structure AccumulatorStore (kit : AccumulatorKit Value) where
  zerocoinDB : Nat → Option Value
  mapAccumulatorValues : Nat → Option Value
  databased : ∀ nChecksum bnValue, zerocoinDB nChecksum = some bnValue →
    kit.getChecksum bnValue = nChecksum
  mapped : ∀ nChecksum bnValue, mapAccumulatorValues nChecksum = some bnValue →
    kit.getChecksum bnValue = nChecksum

namespace AccumulatorStore

variable {kit : AccumulatorKit Value}

def eraseChecksum (store : AccumulatorStore kit) (nChecksum : Nat) : AccumulatorStore kit where
  zerocoinDB := Function.update store.zerocoinDB nChecksum none
  mapAccumulatorValues := Function.update store.mapAccumulatorValues nChecksum none
  databased := by
    intro other bnValue read
    rw [Function.update_apply] at read
    split_ifs at read
    exact store.databased other bnValue read
  mapped := by
    intro other bnValue read
    rw [Function.update_apply] at read
    split_ifs at read
    exact store.mapped other bnValue read

/-- `AddAccumulatorChecksum` of a value with its checksum.  What is in memory stays. -/
def addAccumulatorChecksum (store : AccumulatorStore kit) (bnValue : Value) :
    AccumulatorStore kit where
  zerocoinDB := Function.update store.zerocoinDB (kit.getChecksum bnValue) (some bnValue)
  mapAccumulatorValues nChecksum :=
    (store.mapAccumulatorValues nChecksum).or
      (if nChecksum = kit.getChecksum bnValue then some bnValue else none)
  databased := by
    intro nChecksum other read
    rw [Function.update_apply] at read
    split_ifs at read with same
    · cases read
      exact same.symm
    · exact store.databased nChecksum other read
  mapped := by
    intro nChecksum other read
    rcases Option.or_eq_some_iff.mp read with known | ⟨-, added⟩
    · exact store.mapped nChecksum other known
    · split_ifs at added with same
      cases added
      exact same.symm

def databaseChecksums (store : AccumulatorStore kit)
    (mapAccumulators : CoinDenomination → Value) : AccumulatorStore kit :=
  zerocoinDenomList.foldl
    (fun current denom => current.addAccumulatorChecksum (mapAccumulators denom)) store

end AccumulatorStore

namespace AccumulatorKit

variable (kit : AccumulatorKit Value)

/-- `AccumulatorMap::Reset`. -/
def reset : CoinDenomination → Value :=
  fun _ => kit.accumulatorBase

/-- `AccumulatorMap::Load`, `none` where it fails. -/
def load (store : AccumulatorStore kit) (nCheckpoint : Uint256)
    (mapAccumulators : CoinDenomination → Value) : Option (CoinDenomination → Value) :=
  if zerocoinDenomList.all fun denom =>
      (store.zerocoinDB (parseChecksum nCheckpoint denom)).isSome then
    some fun denom =>
      if denom ∈ zerocoinDenomList then
        (store.zerocoinDB (parseChecksum nCheckpoint denom)).getD (mapAccumulators denom)
      else mapAccumulators denom
  else none

/-- `AccumulatorMap::Accumulate` without validation. -/
def accumulate (mapAccumulators : CoinDenomination → Value) (pubCoin : PublicCoin) :
    Option (CoinDenomination → Value) :=
  if pubCoin.denomination = zqError then none
  else
    some (Function.update mapAccumulators pubCoin.denomination
      (kit.increment (mapAccumulators pubCoin.denomination) pubCoin.value))

/-- `AccumulatorMap::GetCheckpoint`. -/
def getCheckpoint (mapAccumulators : CoinDenomination → Value) : Uint256 :=
  zerocoinDenomList.foldl (fun nCheckpoint denom =>
    (nCheckpoint <<< 32) % 2 ^ 256 ||| kit.getChecksum (mapAccumulators denom)) 0

end AccumulatorKit

/-- The blocks of the active chain from the genesis block on.  A block of a version without
checkpoints has none, and so has its index entry. -/
structure ActiveChain where
  blocks : List CBlock
  unversioned : ∀ block ∈ blocks, block.nVersion ≤ 4 → block.nAccumulatorCheckpoint = 0

namespace ActiveChain

/-- `chainActive.Height()`. -/
def height (chainActive : ActiveChain) : Int :=
  chainActive.blocks.length - 1

/-- `chainActive[nHeight]`, `none` for a null pointer. -/
def blockAt (chainActive : ActiveChain) (nHeight : Int) : Option CBlock :=
  if nHeight < 0 then none else chainActive.blocks[nHeight.toNat]?

/-- The chain up to a block. -/
def upTo (chainActive : ActiveChain) (count : Nat) : ActiveChain where
  blocks := chainActive.blocks.take count
  unversioned block member := chainActive.unversioned block (List.mem_of_mem_take member)

end ActiveChain

/-- `BlockToPubcoinList`, `none` where it fails. -/
def blockToPubcoinList (params : CChainParams) (fraud : FraudMaps) (fFilterInvalid : Bool) :
    List CTransaction → Option (List PublicCoin)
  | [] => some []
  | tx :: rest =>
    if !tx.isZerocoinMint || isFilteredMint params fraud fFilterInvalid tx then
      blockToPubcoinList params fraud fFilterInvalid rest
    else
      match mintsOfOutputs params fraud fFilterInvalid tx.hash tx.vout 0 with
      | (_, false) => none
      | (coins, true) =>
        (blockToPubcoinList params fraud fFilterInvalid rest).map fun others =>
          coins ++ others

/-- What the computation of checkpoints depends on besides the chain and the values: the
parameters, with the last good checkpoint before the recalculation, the banned outpoints, and
the heights at which a shutdown is requested and whose blocks can be read. -/
structure AccumulatorNode where
  params : CChainParams
  nBlockLastGoodCheckpoint : Int
  fraud : FraudMaps
  shutdownRequested : Int → Bool
  readBlockFromDisk : Int → Bool

namespace AccumulatorNode

variable (node : AccumulatorNode) {kit : AccumulatorKit Value}

/-- `EraseCheckpoints`.  It looks for the checkpoint that it deletes, and not for its
checksums, among the checksums before. -/
def eraseCheckpoints (chainActive : ActiveChain) (store : AccumulatorStore kit)
    (nStartHeight nEndHeight : Int) : Option (AccumulatorStore kit) :=
  if chainActive.height < nStartHeight then none
  else do
    let previous ← chainActive.blockAt (nStartHeight - 1)
    let listCheckpointsPrev :=
      zerocoinDenomList.map (parseChecksum previous.nAccumulatorCheckpoint)
    let range := (chainActive.blocks.drop nStartHeight.toNat).take
      (max 1 (min chainActive.height nEndHeight - nStartHeight + 1)).toNat
    some (range.foldl (fun current block =>
      zerocoinDenomList.foldl (fun erased denom =>
        if listCheckpointsPrev.contains block.nAccumulatorCheckpoint then erased
        else erased.eraseChecksum (parseChecksum block.nAccumulatorCheckpoint denom))
        current) store)

/-- The loop of `CalculateAccumulatorCheckpoint` from a height on, with the number of blocks
that are left: the accumulators and the mints found, `none` where it fails. -/
def accumulateBlocks (kit : AccumulatorKit Value) (chainActive : ActiveChain)
    (fFilterInvalid : Bool) :
    Nat → Int → (CoinDenomination → Value) → Nat → Option ((CoinDenomination → Value) × Nat)
  | 0, _, mapAccumulators, nTotalMintsFound => some (mapAccumulators, nTotalMintsFound)
  | left + 1, nHeight, mapAccumulators, nTotalMintsFound =>
    match chainActive.blockAt nHeight with
    | none => none
    | some block =>
      if node.shutdownRequested nHeight then none
      else if nHeight < node.params.getChainHeight .h5 then
        accumulateBlocks kit chainActive fFilterInvalid left (nHeight + 1) mapAccumulators
          nTotalMintsFound
      else if !node.readBlockFromDisk nHeight then none
      else
        match blockToPubcoinList node.params node.fraud fFilterInvalid block.vtx with
        | none => none
        | some listPubcoins =>
          match listPubcoins.foldlM kit.accumulate mapAccumulators with
          | none => none
          | some added =>
            accumulateBlocks kit chainActive fFilterInvalid left (nHeight + 1) added
              (nTotalMintsFound + listPubcoins.length)

/-- The checkpoint of a height and its accumulators, from the first block and the accumulators
that the loop starts with. -/
def checkpointFrom (kit : AccumulatorKit Value) (chainActive : ActiveChain)
    (nPreviousCheckpoint : Uint256) (nHeight nFirstHeight : Int)
    (mapAccumulators : CoinDenomination → Value) :
    Option (Uint256 × (CoinDenomination → Value)) :=
  (node.accumulateBlocks kit chainActive
      (decide (node.params.nBlockRecalculateAccumulators ≤ nHeight))
      (nHeight - 10 - nFirstHeight).toNat nFirstHeight mapAccumulators 0).map
    fun (accumulated, nTotalMintsFound) =>
      (if nTotalMintsFound = 0 then nPreviousCheckpoint else kit.getCheckpoint accumulated,
        accumulated)

/-- The accumulators of the last checkpoint, or at their start where there is none yet. -/
def lastAccumulators (store : AccumulatorStore kit) (nPreviousCheckpoint : Uint256) :
    Option (CoinDenomination → Value) :=
  match kit.load store nPreviousCheckpoint kit.reset with
  | some loaded => some loaded
  | none => if nPreviousCheckpoint = 0 then some kit.reset else none

/-- `CalculateAccumulatorCheckpoint`: the checkpoint and the accumulators, `none` where it
fails, and the stored values. -/
def calculateAccumulatorCheckpoint (chainActive : ActiveChain) (store : AccumulatorStore kit)
    (nHeight : Int) (mapAccumulators : CoinDenomination → Value) :
    Option (Uint256 × (CoinDenomination → Value)) × AccumulatorStore kit :=
  if nHeight < node.params.getChainHeight .h5 then (some (0, mapAccumulators), store)
  else
    match chainActive.blockAt (nHeight - 1) with
    | none => (none, store)
    | some previous =>
      if nHeight.tmod 10 ≠ 0 then
        (some (previous.nAccumulatorCheckpoint, mapAccumulators), store)
      else
        match lastAccumulators store previous.nAccumulatorCheckpoint with
        | none => (none, store)
        | some last =>
          if nHeight = node.params.nBlockRecalculateAccumulators then
            let lastGood := (chainActive.blockAt node.nBlockLastGoodCheckpoint).bind
              fun block => kit.load store block.nAccumulatorCheckpoint kit.reset
            match lastGood with
            | none => (none, store)
            | some good =>
              match eraseCheckpoints chainActive store (node.nBlockLastGoodCheckpoint + 1)
                nHeight with
              | none => (none, store)
              | some erased =>
                (node.checkpointFrom kit chainActive previous.nAccumulatorCheckpoint
                  nHeight (node.nBlockLastGoodCheckpoint - 10) good, erased)
          else
            (node.checkpointFrom kit chainActive previous.nAccumulatorCheckpoint nHeight
              (nHeight - 20) last, store)

/-- The loop of `ReindexAccumulators` over the blocks that are left from a height on: whether
it succeeds, and the stored values. -/
def reindexBlocks (chainActive : ActiveChain) :
    Nat → Int → List Uint256 → AccumulatorStore kit → Bool × AccumulatorStore kit
  | 0, _, _, store => (true, store)
  | left + 1, nHeight, listMissingCheckpoints, store =>
    if listMissingCheckpoints.isEmpty then (true, store)
    else if node.shutdownRequested nHeight then (false, store)
    else
      match chainActive.blockAt nHeight, chainActive.blockAt (nHeight - 1) with
      | some block, some previous =>
        if block.nAccumulatorCheckpoint = previous.nAccumulatorCheckpoint ∨
            !listMissingCheckpoints.contains block.nAccumulatorCheckpoint then
          reindexBlocks chainActive left (nHeight + 1) listMissingCheckpoints store
        else
          match node.calculateAccumulatorCheckpoint chainActive store nHeight
            kit.reset with
          | (none, after) => (node.shutdownRequested nHeight, after)
          | (some (nCheckpointCalculated, mapAccumulators), after) =>
            if nCheckpointCalculated ≠ block.nAccumulatorCheckpoint then (false, after)
            else
              reindexBlocks chainActive left (nHeight + 1)
                (listMissingCheckpoints.erase block.nAccumulatorCheckpoint)
                (after.databaseChecksums mapAccumulators)
      | _, _ => (false, store)

def reindexAccumulators (chainActive : ActiveChain) (listMissingCheckpoints : List Uint256)
    (store : AccumulatorStore kit) : Bool × AccumulatorStore kit :=
  let nZerocoinStart := node.params.getChainHeight .h5
  if chainActive.height < nZerocoinStart then (true, store)
  else
    node.reindexBlocks chainActive (chainActive.height + 1 - nZerocoinStart).toNat
      nZerocoinStart listMissingCheckpoints store

/-- The checkpoints of the blocks from the last good one on that may be missing. -/
def missingCheckpoints (chainActive : ActiveChain) : List Uint256 :=
  (((chainActive.blocks.drop node.nBlockLastGoodCheckpoint.toNat).take
    (node.params.nBlockRecalculateAccumulators + 20 + 1 -
      node.nBlockLastGoodCheckpoint).toNat).map
        fun block => block.nAccumulatorCheckpoint).foldl
    (fun listed nCheckpoint =>
      if listed.contains nCheckpoint then listed else listed ++ [nCheckpoint]) []

/-- `ValidateAccumulatorCheckpoint` of a block whose parent is the tip: the accumulators,
`none` where it fails, and the stored values. -/
def validateAccumulatorCheckpoint (fVerifyingBlocks : Bool) (chainActive : ActiveChain)
    (store : AccumulatorStore kit) (block : CBlock) (nHeight : Int)
    (mapAccumulators : CoinDenomination → Value) :
    Option (CoinDenomination → Value) × AccumulatorStore kit :=
  let compared (calculated : Option (Uint256 × (CoinDenomination → Value))) :=
    calculated.bind fun (nCheckpointCalculated, accumulated) =>
      if nCheckpointCalculated ≠ block.nAccumulatorCheckpoint then none else some accumulated
  if fVerifyingBlocks then (some mapAccumulators, store)
  else if node.params.getChainHeight .h5 ≤ nHeight ∧ nHeight.tmod 10 = 0 then
    match node.calculateAccumulatorCheckpoint chainActive store nHeight mapAccumulators with
    | (some calculated, after) => (compared (some calculated), after)
    | (none, after) =>
      if nHeight < node.params.nBlockRecalculateAccumulators + 20 ∧
          node.nBlockLastGoodCheckpoint < nHeight then
        match node.reindexAccumulators chainActive (node.missingCheckpoints chainActive)
          after with
        | (false, reindexed) => (none, reindexed)
        | (true, reindexed) =>
          let again := node.calculateAccumulatorCheckpoint chainActive reindexed nHeight
            mapAccumulators
          (compared again.1, again.2)
      else (none, after)
  else
    match chainActive.blockAt (nHeight - 1) with
    | none => (none, store)
    | some previous =>
      if block.nAccumulatorCheckpoint ≠ previous.nAccumulatorCheckpoint then (none, store)
      else (some mapAccumulators, store)

end AccumulatorNode

end ColossusCoin
