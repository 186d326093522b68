import ColossusCoin.Zerocoin.CheckpointWindows

/-!
# Witnesses of accumulated coins

To spend a coin a node takes the accumulator of a checkpoint, and a witness that accumulates
all the other coins that the checkpoint counts.  The witness starts from the checkpoint before
the coin, and the mints of the blocks in between are added one by one.
-/

namespace ColossusCoin

open CoinDenomination

variable {kit : AccumulatorKit Value}

/-- `GetAccumulatorValueFromDB`, `none` where the value is zero for want of a record. -/
def AccumulatorStore.getAccumulatorValueFromDB (store : AccumulatorStore kit)
    (nCheckpoint : Uint256) (denom : CoinDenomination) : Option Value :=
  let nChecksum := parseChecksum nCheckpoint denom
  (store.mapAccumulatorValues nChecksum).or (store.zerocoinDB nChecksum)

/-- What witnesses depend on besides: the number of mints that a witness has to have, the
transactions in which coins were minted, and the blocks of transactions and their heights. -/
structure WitnessNode extends AccumulatorNode where
  nRequiredAccumulation : Int
  readCoinMint : CBigNum → Option Uint256
  getTransaction : Uint256 → Option Uint256
  mapBlockIndex : Uint256 → Option Int

/-- The accumulator, its witness and the number of mints that were added. -/
structure WitnessState (Value : Type) where
  accumulator : Value
  witness : Value
  nMintsAdded : Int
  deriving DecidableEq

namespace WitnessNode

variable (node : WitnessNode)

/-- `nHeightMintAdded`: the height of the block in which a coin was minted. -/
def mintHeight (coin : PublicCoin) : Option Int :=
  ((node.readCoinMint coin.value).bind node.getTransaction).bind node.mapBlockIndex

/-- The loop over the blocks above a mint, with the number of blocks that are left: the first
checkpoint after the mint, zero without one, and the height at which the loop ends. -/
def checkpointAfterMint (chainActive : ActiveChain) (nHeightMintAdded : Int) :
    Nat → Int → Uint256 × Int
  | 0, nHeight => (0, nHeight)
  | left + 1, nHeight =>
    if nHeight ≠ nHeightMintAdded ∧ nHeight.tmod 10 = 0 then
      ((chainActive.blockAt nHeight).elim 0 fun block => block.nAccumulatorCheckpoint, nHeight)
    else checkpointAfterMint chainActive nHeightMintAdded left (nHeight + 1)

def invalidCheckpointRange (nHeight : Int) : Bool :=
  node.nBlockLastGoodCheckpoint < nHeight &&
    nHeight < node.params.nBlockRecalculateAccumulators

/-- `vMintDenominationsInBlock` of the index entry of a block. -/
def mintDenominationsInBlock (block : CBlock) (nHeight : Int) : List CoinDenomination :=
  (blockToZerocoinMintList node.params node.fraud
    (decide (node.params.nBlockRecalculateAccumulators ≤ nHeight)) block.vtx).map
      PublicCoin.denomination

/-- The coins of a block that are added to the witness of a coin. -/
def witnessCoins (coin : PublicCoin) (nHeightMintAdded nHeight : Int)
    (listPubcoins : List PublicCoin) : List CBigNum :=
  (listPubcoins.filter fun pubcoin =>
    pubcoin.denomination = coin.denomination ∧
      ¬(nHeight = nHeightMintAdded ∧ pubcoin.value = coin.value)).map PublicCoin.value

/-- The security level with a random increment. -/
def randomizedLevel (nSecurityLevel random : Int) : Int :=
  if nSecurityLevel < 100 then
    if 100 ≤ nSecurityLevel + random then 99 else nSecurityLevel + random
  else nSecurityLevel

/-- The loop that adds coins to a witness, from a height on with the number of blocks that are
left.  It ends by taking the accumulator of a checkpoint; `none` where it fails. -/
def addCoins (chainActive : ActiveChain) (store : AccumulatorStore kit) (coin : PublicCoin)
    (nHeightMintAdded nAccStartHeight nHeightStop nSecurityLevel : Int) :
    Nat → Int → Int → WitnessState Value → Option (WitnessState Value)
  | 0, _, _, state => some state
  | left + 1, nHeight, nCheckpointsAdded, state =>
    match chainActive.blockAt nHeight with
    | none => none
    | some block =>
      let nCheckpointsAdded :=
        if nHeight ≠ nAccStartHeight ∧
            (chainActive.blockAt (nHeight - 1)).map (fun prev => prev.nAccumulatorCheckpoint) ≠
              some block.nAccumulatorCheckpoint then nCheckpointsAdded + 1
        else nCheckpointsAdded
      if node.invalidCheckpointRange nHeight = false ∧
          (nHeightStop ≤ nHeight ∨
            (nSecurityLevel ≠ 100 ∧ nSecurityLevel ≤ nCheckpointsAdded)) then
        match chainActive.blockAt (nHeight + 10) with
        | none => none
        | some later =>
          (store.zerocoinDB
            (parseChecksum later.nAccumulatorCheckpoint coin.denomination)).map
              fun bnAccValue => { state with accumulator := bnAccValue }
      else if (node.mintDenominationsInBlock block nHeight).contains coin.denomination then
        if !node.readBlockFromDisk nHeight then none
        else
          match blockToPubcoinList node.params node.fraud true block.vtx with
          | none => none
          | some listPubcoins =>
            let added := witnessCoins coin nHeightMintAdded nHeight listPubcoins
            addCoins chainActive store coin nHeightMintAdded nAccStartHeight nHeightStop
              nSecurityLevel left (nHeight + 1) nCheckpointsAdded
              { state with
                witness := added.foldl kit.increment state.witness
                nMintsAdded := state.nMintsAdded + added.length }
      else
        addCoins chainActive store coin nHeightMintAdded nAccStartHeight nHeightStop
          nSecurityLevel left (nHeight + 1) nCheckpointsAdded state

/-- The mints of a denomination from the start of zerocoin up to the block before a height. -/
def mintsBefore (chainActive : ActiveChain) (denom : CoinDenomination) (nHeight : Int) : Int :=
  let nZerocoinStartHeight := node.params.getChainHeight .h5
  (((chainActive.blocks.zipIdx.drop nZerocoinStartHeight.toNat).take
    (nHeight - nZerocoinStartHeight).toNat).map fun (block, i) =>
      ((node.mintDenominationsInBlock block i).count denom : Int)).sum

/-- The accumulator and the witness that the loop starts with: the value of the checkpoint, or
what the caller passed without one. -/
def startState (store : AccumulatorStore kit) (coin : PublicCoin)
    (nCheckpointBeforeMint : Uint256) (accumulator witness : Value) : WitnessState Value :=
  match store.getAccumulatorValueFromDB nCheckpointBeforeMint coin.denomination with
  | some bnAccValue => ⟨bnAccValue, bnAccValue, 0⟩
  | none => ⟨accumulator, witness, 0⟩

/-- `GenerateAccumulatorWitness` from where the checkpoint before the mint is known. -/
def generateFrom (chainActive : ActiveChain) (store : AccumulatorStore kit) (coin : PublicCoin)
    (nHeightMintAdded nAccStartHeight nSecurityLevel : Int) (start : WitnessState Value) :
    Option (WitnessState Value) :=
  let nHeightStop := chainActive.height - chainActive.height.tmod 10 - 20
  match node.addCoins chainActive store coin nHeightMintAdded nAccStartHeight nHeightStop
    nSecurityLevel (nHeightStop + 1 - nAccStartHeight).toNat nAccStartHeight 0 start with
  | none => none
  | some state =>
    if state.nMintsAdded < node.nRequiredAccumulation then none
    else if (chainActive.blockAt (node.params.getChainHeight .h5)).isNone then none
    else
      some { state with
        nMintsAdded := state.nMintsAdded +
          node.mintsBefore chainActive coin.denomination nAccStartHeight }

/-- `GenerateAccumulatorWitness` of a coin, from the accumulator and the witness that it is
called with; `none` where it fails. -/
def generateAccumulatorWitness (chainActive : ActiveChain) (store : AccumulatorStore kit)
    (coin : PublicCoin) (accumulator witness : Value) (nSecurityLevel random : Int) :
    Option (WitnessState Value) :=
  match node.mintHeight coin with
  | none => none
  | some nHeightMintAdded =>
    if (chainActive.blockAt nHeightMintAdded).isNone then none
    else
      match checkpointAfterMint chainActive nHeightMintAdded
        (chainActive.height - 1 - nHeightMintAdded).toNat nHeightMintAdded with
      | (nCheckpointAfterMint, nHeight) =>
        if nHeight < node.params.nBlockRecalculateAccumulators - 10 ∧
            node.nBlockLastGoodCheckpoint < nHeight then
          match chainActive.blockAt node.nBlockLastGoodCheckpoint with
          | none => none
          | some lastGood =>
            node.generateFrom chainActive store coin nHeightMintAdded
              (node.nBlockLastGoodCheckpoint - 10) (randomizedLevel nSecurityLevel random)
              (startState store coin lastGood.nAccumulatorCheckpoint accumulator witness)
        else
          node.generateFrom chainActive store coin nHeightMintAdded
            (nHeightMintAdded - nHeightMintAdded.tmod 10)
            (randomizedLevel nSecurityLevel random)
            (startState store coin nCheckpointAfterMint accumulator witness)

end WitnessNode

end ColossusCoin
