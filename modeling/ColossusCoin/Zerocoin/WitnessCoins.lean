import Mathlib.Algebra.Order.Group.Nat
import Mathlib.Algebra.BigOperators.Group.Multiset.Basic
import Mathlib.Algebra.Order.BigOperators.Group.List
import ColossusCoin.Zerocoin.AccumulatorWitness

/-!
# The coins of a witness

The coins that a witness accumulates are those of the accumulator without the coin that is
spent, exactly when that coin was minted a single time in its block.
-/

namespace ColossusCoin

open CoinDenomination

section Listed

variable {params : CChainParams} {fraud : FraudMaps}

section

variable (unbanned : ∀ out, fraud.mapInvalidOutPoints out = false)
include unbanned

theorem validOutPoint_of_unbanned
    (out : COutPoint) (nHeight : Int) :
    validOutPoint params fraud out nHeight = true := by
  unfold validOutPoint
  rw [unbanned, Bool.and_false, Bool.not_false]

/-- Where no outpoint is banned the filter drops no output. -/
theorem mintsOfOutputs_filtered
    (txHash : Uint256) (outs : List CTxOut) (i : Nat) :
    mintsOfOutputs params fraud true txHash outs i =
      mintsOfOutputs params fraud false txHash outs i := by
  induction outs generalizing i with
  | nil => rfl
  | cons txout rest ih =>
    rw [mintsOfOutputs, mintsOfOutputs, validOutPoint_of_unbanned unbanned, ih]
    rfl

/-- Where no outpoint is banned the filter drops nothing from a block. -/
theorem blockToPubcoinList_filtered
    (txs : List CTransaction) :
    blockToPubcoinList params fraud true txs = blockToPubcoinList params fraud false txs := by
  have unfiltered (tx : CTransaction) : isFilteredMint params fraud true tx = false := by
    unfold isFilteredMint
    rw [Bool.true_and, List.any_eq_false]
    intro txin _
    rw [validOutPoint_of_unbanned unbanned]
    exact Bool.false_ne_true
  have unfilteredMints (tx : CTransaction) : isFilteredMint params fraud false tx = false := rfl
  induction txs with
  | nil => rfl
  | cons tx rest ih =>
    rw [blockToPubcoinList, blockToPubcoinList, mintsOfOutputs_filtered unbanned, unfiltered,
      unfilteredMints, ih]

end

/-- Without the filter the banned outpoints do not matter. -/
theorem mintsOfOutputs_anyFraud
    (other : FraudMaps) (txHash : Uint256) (outs : List CTxOut) (i : Nat) :
    mintsOfOutputs params other false txHash outs i =
      mintsOfOutputs params fraud false txHash outs i := by
  induction outs generalizing i with
  | nil => rfl
  | cons txout rest ih =>
    rw [mintsOfOutputs, mintsOfOutputs, ih]
    rfl

theorem blockToPubcoinList_anyFraud
    (other : FraudMaps) (txs : List CTransaction) :
    blockToPubcoinList params other false txs = blockToPubcoinList params fraud false txs := by
  induction txs with
  | nil => rfl
  | cons tx rest ih =>
    rw [blockToPubcoinList, blockToPubcoinList, ih, @mintsOfOutputs_anyFraud params fraud other]
    rfl

theorem blockToZerocoinMintList_of_listed
    (listed : blockToPubcoinList params fraud false txs = some coins) :
    blockToZerocoinMintList params fraud false txs = coins := by
  induction txs generalizing coins with
  | nil =>
    cases listed
    rfl
  | cons tx rest ih =>
    rw [blockToPubcoinList] at listed
    rw [blockToZerocoinMintList]
    split_ifs at listed ⊢ with skipped
    · exact ih listed
    · rcases outcome : mintsOfOutputs params fraud false tx.hash tx.vout 0 with ⟨own, _ | _⟩
      · rw [outcome] at listed
        cases listed
      · rw [outcome] at listed
        obtain ⟨others, found, rfl⟩ := Option.map_eq_some_iff.mp listed
        rw [ih found]

end Listed

theorem mem_zerocoinDenomList (valued : denom ≠ zqError) :
    denom ∈ zerocoinDenomList := by
  cases denom with
  | zqError => exact absurd rfl valued
  | _ => decide

variable {kit : AccumulatorKit Value}

namespace AccumulatorNode

variable {node : AccumulatorNode}

theorem listed_of_accumulateBlocks
    {left nHeight : Nat}
    {mapAccumulators accumulated : CoinDenomination → Value}
    {nTotalMintsFound total : Nat}
    (ran : node.accumulateBlocks kit chainActive false left nHeight mapAccumulators
      nTotalMintsFound = some (accumulated, total))
    {i : Nat}
    (above : nHeight ≤ i)
    (below : i < nHeight + left)
    (active : node.params.getChainHeight .h5 ≤ i) :
    ∃ block coins, chainActive.blocks[i]? = some block ∧
      blockToPubcoinList node.params node.fraud false block.vtx = some coins := by
  induction left generalizing nHeight mapAccumulators nTotalMintsFound with
  | zero => omega
  | succ left ih =>
    have next : (nHeight : Int) + 1 = ((nHeight + 1 : Nat) : Int) := rfl
    unfold accumulateBlocks at ran
    rw [ActiveChain.blockAt_natCast, next] at ran
    cases found : chainActive.blocks[nHeight]? with
    | none =>
      rw [found] at ran
      cases ran
    | some block =>
      rw [found] at ran
      dsimp only at ran
      split_ifs at ran with stopped early unread
      · exact ih ran (by omega) (by omega)
      · cases listed : blockToPubcoinList node.params node.fraud false block.vtx with
        | none =>
          rw [listed] at ran
          cases ran
        | some listPubcoins =>
          rw [listed] at ran
          cases added : listPubcoins.foldlM kit.accumulate mapAccumulators with
          | none =>
            simp only [added] at ran
            cases ran
          | some following =>
            simp only [added] at ran
            by_cases here : i = nHeight
            · subst here
              exact ⟨block, listPubcoins, found, listed⟩
            · exact ih ran (by omega) (by omega)

theorem listed_of_valid
    (never : node.NeverRecalculates)
    (short : (chainActive.blocks.length : Int) ≤ intMax)
    (valid : node.CheckpointsValid kit values chainActive)
    {i : Nat}
    (active : node.params.getChainHeight .h5 ≤ i)
    (counted : i / 10 * 10 + 20 < chainActive.blocks.length) :
    ∃ block, chainActive.blocks[i]? = some block ∧
      blockToPubcoinList node.params node.fraud false block.vtx = some block.publicCoins := by
  let nHeight := i / 10 * 10 + 20
  have found : chainActive.blocks[nHeight]? = some chainActive.blocks[nHeight] :=
    List.getElem?_eq_getElem counted
  obtain ⟨visited, store, mapAccumulators, params, lastGood, -, passed⟩ :=
    valid nHeight _ (Nat.succ_pos _) found
  have neverVisited : visited.NeverRecalculates :=
    ⟨by rw [params]; exact never.recalculate, lastGood.trans never.lastGood⟩
  have multiple : ((nHeight : Nat) : Int).tmod 10 = 0 := by
    rw [Int.tmod_eq_emod_of_nonneg (by omega)]
    omega
  rcases calculated_of_validate neverVisited (by omega) passed with
    ⟨started, -, accumulated, calculated⟩ | ⟨other, -⟩
  · obtain ⟨_, last, total, -, -, -, ran, -⟩ :=
      accumulateBlocks_of_calculate neverVisited started multiple (by omega) calculated
    obtain ⟨block, coins, foundUpTo, listed⟩ :=
      @listed_of_accumulateBlocks _ _ _ _ _ _ _ _ _ _ ran i (by omega) (by omega)
        (by rw [params]; exact active)
    have inChain : chainActive.blocks[i]? = some block := by
      unfold ActiveChain.upTo at foundUpTo
      rwa [List.getElem?_take_of_lt (by omega)] at foundUpTo
    rw [params, @blockToPubcoinList_anyFraud _ node.fraud visited.fraud] at listed
    have whole : coins = block.publicCoins := blockToPubcoinList_whole listed
    rw [whole] at listed
    exact ⟨block, inChain, listed⟩
  · apply absurd _ other
    refine ⟨?_, multiple⟩
    rw [params]
    omega

end AccumulatorNode

/-! ## The loops of the witness -/

namespace WitnessNode

variable {node : WitnessNode} {chainActive : ActiveChain}

/-- The first checkpoint after a mint is at the next multiple of ten. -/
theorem checkpointAfterMint_eq
    {nHeightMintAdded left nHeight : Nat}
    (above : nHeightMintAdded ≤ nHeight)
    (below : nHeight ≤ nHeightMintAdded / 10 * 10 + 10)
    (reached : nHeightMintAdded / 10 * 10 + 10 < nHeight + left) :
    checkpointAfterMint chainActive nHeightMintAdded left nHeight =
      (chainActive.blocks[nHeightMintAdded / 10 * 10 + 10]?.elim 0
          fun block => block.nAccumulatorCheckpoint,
        ((nHeightMintAdded / 10 * 10 + 10 : Nat) : Int)) := by
  induction left generalizing nHeight with
  | zero => omega
  | succ left ih =>
    have next : (nHeight : Int) + 1 = ((nHeight + 1 : Nat) : Int) := rfl
    unfold checkpointAfterMint
    rw [Int.tmod_eq_emod_of_nonneg (by omega)]
    by_cases there : nHeight = nHeightMintAdded / 10 * 10 + 10
    · rw [if_pos (by omega), ActiveChain.blockAt_natCast, there]
    · rw [if_neg (by omega), next]
      exact ih (by omega) (by omega) (by omega)

/-- The coins that the block of a height adds to the witness. -/
def addedAt (node : WitnessNode) (chainActive : ActiveChain) (coin : PublicCoin)
    (nHeightMintAdded : Int) (nHeight : Nat) : List CBigNum :=
  chainActive.blocks[nHeight]?.elim [] fun block =>
    if (node.mintDenominationsInBlock block nHeight).contains coin.denomination then
      (blockToPubcoinList node.params node.fraud true block.vtx).elim []
        (witnessCoins coin nHeightMintAdded nHeight)
    else []

/-- The loop can stop at its first or its last height, or where a new checkpoint is. -/
def Stops (chainActive : ActiveChain) (nAccStartHeight nHeightStop : Int) (stop : Nat) : Prop :=
  (stop : Int) = nAccStartHeight ∨ (stop : Int) = nHeightStop ∨
    ∃ block, chainActive.blocks[stop]? = some block ∧
      (chainActive.blockAt ((stop : Int) - 1)).map (fun prev => prev.nAccumulatorCheckpoint) ≠
        some block.nAccumulatorCheckpoint

/-- The loop adds the coins of the blocks up to the one where it stops, and takes the
accumulator of the checkpoint ten blocks above. -/
theorem addCoins_stops
    (never : node.NeverRecalculates)
    {store : AccumulatorStore kit} {coin : PublicCoin}
    {left nHeight : Nat}
    (bounded : nHeightStop ≤ intMax)
    (aligned : (nHeight : Int) + left = nHeightStop + 1)
    (positive : 0 < left)
    (waiting : (nHeight : Int) ≠ nAccStartHeight →
      ¬(nSecurityLevel ≠ 100 ∧ nSecurityLevel ≤ nCheckpointsAdded))
    (forward : nAccStartHeight ≤ nHeight)
    (ran : node.addCoins chainActive store coin nHeightMintAdded nAccStartHeight nHeightStop
      nSecurityLevel left nHeight nCheckpointsAdded state = some added) :
    ∃ stop, nHeight ≤ stop ∧ (stop : Int) ≤ nHeightStop ∧
      Stops chainActive nAccStartHeight nHeightStop stop ∧
      (∃ later, chainActive.blocks[stop + 10]? = some later ∧
        store.zerocoinDB (parseChecksum later.nAccumulatorCheckpoint coin.denomination) =
          some added.accumulator) ∧
      added.witness =
        ((List.range' nHeight (stop - nHeight)).flatMap
          (node.addedAt chainActive coin nHeightMintAdded)).foldl kit.increment state.witness ∧
      added.nMintsAdded = state.nMintsAdded +
        ((List.range' nHeight (stop - nHeight)).flatMap
          (node.addedAt chainActive coin nHeightMintAdded)).length := by
  induction left generalizing nHeight nCheckpointsAdded state with
  | zero => omega
  | succ left ih =>
    have next : (nHeight : Int) + 1 = ((nHeight + 1 : Nat) : Int) := rfl
    have later : (nHeight : Int) + 10 = ((nHeight + 10 : Nat) : Int) := rfl
    have valid : node.invalidCheckpointRange nHeight = false := by
      unfold invalidCheckpointRange
      rw [never.lastGood, decide_eq_false (by omega), Bool.false_and]
    unfold addCoins at ran
    rw [ActiveChain.blockAt_natCast, next, later, ActiveChain.blockAt_natCast] at ran
    cases found : chainActive.blocks[nHeight]? with
    | none =>
      rw [found] at ran
      cases ran
    | some block =>
      rw [found] at ran
      dsimp only at ran
      generalize counted : (if (nHeight : Int) ≠ nAccStartHeight ∧
        (chainActive.blockAt ((nHeight : Int) - 1)).map
          (fun prev => prev.nAccumulatorCheckpoint) ≠ some block.nAccumulatorCheckpoint
        then nCheckpointsAdded + 1 else nCheckpointsAdded) = checkpoints at ran
      by_cases breaks : nHeightStop ≤ (nHeight : Int) ∨
          (nSecurityLevel ≠ 100 ∧ nSecurityLevel ≤ checkpoints)
      · rw [if_pos ⟨valid, breaks⟩] at ran
        have stops : Stops chainActive nAccStartHeight nHeightStop nHeight := by
          by_cases first : (nHeight : Int) = nAccStartHeight
          · exact Or.inl first
          · rcases breaks with last | level
            · exact Or.inr (Or.inl (by omega))
            · refine Or.inr (Or.inr ⟨block, found, fun unchanged => ?_⟩)
              rw [if_neg fun changed => changed.2 unchanged] at counted
              subst counted
              exact waiting first level
        cases after : chainActive.blocks[nHeight + 10]? with
        | none =>
          rw [after] at ran
          cases ran
        | some later =>
          rw [after] at ran
          obtain ⟨bnAccValue, read, rfl⟩ := Option.map_eq_some_iff.mp ran
          refine ⟨nHeight, Nat.le_refl _, by omega, stops, ⟨later, after, read⟩, ?_⟩
          rw [Nat.sub_self, List.range'_zero, List.flatMap_nil]
          exact ⟨rfl, (Int.add_zero _).symm⟩
      · rw [if_neg fun both => breaks both.2] at ran
        rw [not_or] at breaks
        have continued : ∃ state' : WitnessState Value,
            state'.witness = (node.addedAt chainActive coin nHeightMintAdded nHeight).foldl
              kit.increment state.witness ∧
            state'.nMintsAdded = state.nMintsAdded +
              (node.addedAt chainActive coin nHeightMintAdded nHeight).length ∧
            node.addCoins chainActive store coin nHeightMintAdded nAccStartHeight nHeightStop
              nSecurityLevel left ((nHeight + 1 : Nat) : Int) checkpoints state' =
                some added := by
          unfold addedAt
          rw [found, Option.elim_some]
          split_ifs at ran ⊢ with minted unread
          · cases listed : blockToPubcoinList node.params node.fraud true block.vtx with
            | none =>
              rw [listed] at ran
              cases ran
            | some listPubcoins =>
              rw [listed] at ran
              exact ⟨_, rfl, rfl, ran⟩
          · exact ⟨state, rfl, (Int.add_zero _).symm, ran⟩
        obtain ⟨state', witness, mints, ran'⟩ := continued
        obtain ⟨stop, above, within, stops, read, witness', mints'⟩ :=
          ih (by omega) (by omega) (fun _ => breaks.2) (by omega) ran'
        have window : stop - nHeight = (stop - (nHeight + 1)) + 1 := by omega
        refine ⟨stop, by omega, within, stops, read, ?_⟩
        rw [window, List.range'_succ, List.flatMap_cons, List.foldl_append, List.length_append,
          ← witness, witness', mints', mints]
        refine ⟨rfl, ?_⟩
        omega

theorem witnessCoins_eq
    (coin : PublicCoin) (nHeightMintAdded nHeight : Int) (coins : List PublicCoin) :
    witnessCoins coin nHeightMintAdded nHeight coins =
      if nHeight = nHeightMintAdded then
        (coinsOf coin.denomination coins).filter fun bnValue => bnValue ≠ coin.value
      else coinsOf coin.denomination coins := by
  unfold witnessCoins coinsOf
  split_ifs with here
  · rw [List.filter_map, List.filter_filter]
    refine congrArg _ (List.filter_congr fun pubcoin _ => ?_)
    simp [here, Bool.and_comm]
  · refine congrArg _ (List.filter_congr fun pubcoin _ => ?_)
    simp [here]

theorem addedAt_of_listed
    (never : node.NeverRecalculates)
    (unbanned : ∀ out, node.fraud.mapInvalidOutPoints out = false)
    {nHeight : Nat}
    (found : chainActive.blocks[nHeight]? = some block)
    (listed : blockToPubcoinList node.params node.fraud false block.vtx = some block.publicCoins)
    (bounded : (nHeight : Int) < intMax)
    (coin : PublicCoin)
    (nHeightMintAdded : Int) :
    node.addedAt chainActive coin nHeightMintAdded nHeight =
      if (nHeight : Int) = nHeightMintAdded then
        (coinsOf coin.denomination block.publicCoins).filter fun bnValue => bnValue ≠ coin.value
      else coinsOf coin.denomination block.publicCoins := by
  have recorded : node.mintDenominationsInBlock block nHeight =
      block.publicCoins.map PublicCoin.denomination := by
    unfold mintDenominationsInBlock
    rw [never.recalculate, decide_eq_false (by omega), blockToZerocoinMintList_of_listed listed]
  unfold addedAt
  rw [found, Option.elim_some, recorded, blockToPubcoinList_filtered unbanned, listed,
    Option.elim_some, witnessCoins_eq]
  by_cases minted : (block.publicCoins.map PublicCoin.denomination).contains coin.denomination
  · rw [if_pos minted]
  · have unminted : coinsOf coin.denomination block.publicCoins = [] := by
      unfold coinsOf
      rw [List.map_eq_nil_iff, List.filter_eq_nil_iff]
      intro pubcoin member
      rw [List.contains_iff_mem] at minted
      rw [decide_eq_true_iff]
      intro same
      exact minted (List.mem_map.mpr ⟨pubcoin, member, same⟩)
    rw [if_neg minted, unminted, List.filter_nil, ite_self]

/-- A node with a chain of valid checkpoints, on a network without a recalculation and without
banned outpoints, on which zerocoin starts at a multiple of ten and a witness has to have a
mint at least. -/
structure SoundChain (node : WitnessNode) (kit : AccumulatorKit Value) (values : Set Value)
    (chainActive : ActiveChain) : Prop where
  never : node.NeverRecalculates
  unbanned : ∀ out, node.fraud.mapInvalidOutPoints out = false
  startMultiple : node.params.getChainHeight .h5 % 10 = 0
  required : 0 < node.nRequiredAccumulation
  collisionFree : kit.CollisionFree values
  known : ∀ count ≤ chainActive.blocks.length, ∀ denom ∈ zerocoinDenomList,
    chainActive.accumulatedBelow kit node.params count denom ∈ values
  genesis : ∀ block, chainActive.blocks[0]? = some block → block.nAccumulatorCheckpoint = 0
  short : (chainActive.blocks.length : Int) ≤ intMax
  valid : node.CheckpointsValid kit values chainActive

section Sound

variable {store : AccumulatorStore kit} {coin : PublicCoin}

/-- Below a multiple of ten the checkpoint is that of the parent. -/
theorem SoundChain.multiple_of_changed
    (sound : SoundChain node kit values chainActive)
    {nHeight : Nat}
    (positive : 0 < nHeight)
    (found : chainActive.blocks[nHeight]? = some block)
    (changed : (chainActive.blockAt ((nHeight : Int) - 1)).map
      (fun prev => prev.nAccumulatorCheckpoint) ≠ some block.nAccumulatorCheckpoint) :
    nHeight % 10 = 0 := by
  obtain ⟨visited, stored, mapAccumulators, params, lastGood, -, passed⟩ :=
    sound.valid nHeight block positive found
  have inChain : nHeight < chainActive.blocks.length := (List.getElem?_eq_some_iff.mp found).1
  have short := sound.short
  have neverVisited : visited.NeverRecalculates :=
    ⟨by rw [params]; exact sound.never.recalculate, lastGood.trans sound.never.lastGood⟩
  rcases AccumulatorNode.calculated_of_validate neverVisited (by omega) passed with
    ⟨-, multiple, -⟩ | ⟨-, previous, parent, same⟩
  · rw [Int.tmod_eq_emod_of_nonneg (by omega)] at multiple
    omega
  · apply absurd _ changed
    have before : (nHeight : Int) - 1 = ((nHeight - 1 : Nat) : Int) := by omega
    rw [before, ActiveChain.blockAt_natCast] at parent ⊢
    unfold ActiveChain.upTo at parent
    rw [List.getElem?_take_of_lt (by omega)] at parent
    rw [parent, same]
    rfl

/-- A witness has the coins of the blocks from a multiple of ten to a later one, whose
accumulator is taken. -/
theorem generateFrom_spec
    (sound : SoundChain node kit values chainActive)
    {nAccStartHeight : Nat}
    (multiple : nAccStartHeight % 10 = 0)
    (empty : start.nMintsAdded = 0)
    (generated : node.generateFrom chainActive store coin nHeightMintAdded nAccStartHeight
      nSecurityLevel start = some state) :
    ∃ stop later, nAccStartHeight < stop ∧ stop % 10 = 0 ∧
      chainActive.blocks[stop + 10]? = some later ∧
      (stop : Int) + 20 ≤ chainActive.height ∧
      store.zerocoinDB (parseChecksum later.nAccumulatorCheckpoint coin.denomination) =
        some state.accumulator ∧
      state.witness = ((List.range' nAccStartHeight (stop - nAccStartHeight)).flatMap
        (node.addedAt chainActive coin nHeightMintAdded)).foldl kit.increment start.witness := by
  have short := sound.short
  have required := sound.required
  have tip : chainActive.height = chainActive.blocks.length - 1 := rfl
  unfold generateFrom at generated
  dsimp only at generated
  generalize stopHeight : chainActive.height - chainActive.height.tmod 10 - 20 = nHeightStop
    at generated
  cases ran : node.addCoins chainActive store coin nHeightMintAdded nAccStartHeight nHeightStop
    nSecurityLevel (nHeightStop + 1 - nAccStartHeight).toNat nAccStartHeight 0 start with
  | none =>
    rw [ran] at generated
    cases generated
  | some added =>
    rw [ran] at generated
    dsimp only at generated
    split_ifs at generated with few missing
    cases generated
    have reached : (nAccStartHeight : Int) ≤ nHeightStop := by
      by_contra beyond
      have none_left : (nHeightStop + 1 - (nAccStartHeight : Int)).toNat = 0 := by omega
      rw [none_left] at ran
      cases ran
      omega
    have nonneg : 0 ≤ chainActive.height := by
      by_contra negative
      have empty : chainActive.height = -1 := by omega
      have rest : (-1 : Int).tmod 10 = -1 := rfl
      rw [empty, rest] at stopHeight
      omega
    rw [Int.tmod_eq_emod_of_nonneg nonneg] at stopHeight
    obtain ⟨stop, above, within, stops, ⟨later, found, read⟩, coins, mints⟩ :=
      addCoins_stops sound.never (by omega) (by omega) (by omega)
        (fun other => absurd rfl other) (Int.le_refl _) ran
    have further : stop ≠ nAccStartHeight := by
      intro first
      rw [first, Nat.sub_self, List.range'_zero, List.flatMap_nil] at mints
      rw [empty] at mints
      exact few (by rw [mints]; exact required)
    have tens : stop % 10 = 0 := by
      rcases stops with first | last | ⟨block, here, changed⟩
      · omega
      · omega
      · exact sound.multiple_of_changed (by omega) here changed
    exact ⟨stop, later, by omega, tens, found, by omega, read, coins⟩

/-- The loop above a mint ends below the tip or where it starts. -/
theorem checkpointAfterMint_le
    (nHeightMintAdded : Int)
    (left : Nat)
    (nHeight : Int) :
    (checkpointAfterMint chainActive nHeightMintAdded left nHeight).2 ≤ nHeight + left := by
  induction left generalizing nHeight with
  | zero => exact Int.le_of_eq (Int.add_zero _).symm
  | succ left ih =>
    unfold checkpointAfterMint
    split_ifs with there
    · dsimp only
      omega
    · have next := ih (nHeight + 1)
      omega

/-- A witness starts from the checkpoint after the mint of its coin, has the coins of the blocks
from there to a later multiple of ten, and the accumulator is that of the checkpoint ten blocks
above. -/
theorem generateAccumulatorWitness_spec
    (sound : SoundChain node kit values chainActive)
    {nHeightMintAdded : Nat}
    (height : node.mintHeight coin = some (nHeightMintAdded : Int))
    {nSecurityLevel random : Int}
    (generated : node.generateAccumulatorWitness chainActive store coin accumulator witness
      nSecurityLevel random = some state) :
    ∃ stop before later,
      nHeightMintAdded < stop ∧ stop % 10 = 0 ∧
        chainActive.blocks[nHeightMintAdded / 10 * 10 + 10]? = some before ∧
        chainActive.blocks[stop + 10]? = some later ∧
        store.zerocoinDB (parseChecksum later.nAccumulatorCheckpoint coin.denomination) =
          some state.accumulator ∧
        state.witness = ((List.range' (nHeightMintAdded / 10 * 10)
            (stop - nHeightMintAdded / 10 * 10)).flatMap
              (node.addedAt chainActive coin nHeightMintAdded)).foldl kit.increment
            ((store.getAccumulatorValueFromDB before.nAccumulatorCheckpoint
              coin.denomination).getD witness) := by
  have short := sound.short
  have tip : chainActive.height = chainActive.blocks.length - 1 := rfl
  have first : (nHeightMintAdded : Int) - (nHeightMintAdded : Int).tmod 10 =
      ((nHeightMintAdded / 10 * 10 : Nat) : Int) := by
    rw [Int.tmod_eq_emod_of_nonneg (by omega)]
    omega
  have started (nCheckpoint : Uint256) : (startState store coin nCheckpoint accumulator
      witness).nMintsAdded = 0 ∧
      (startState store coin nCheckpoint accumulator witness).witness =
        (store.getAccumulatorValueFromDB nCheckpoint coin.denomination).getD witness := by
    unfold startState
    cases store.getAccumulatorValueFromDB nCheckpoint coin.denomination with
    | none => exact ⟨rfl, rfl⟩
    | some bnAccValue => exact ⟨rfl, rfl⟩
  unfold generateAccumulatorWitness at generated
  rw [height] at generated
  dsimp only at generated
  have missing : ¬(chainActive.blockAt nHeightMintAdded).isNone = true := by
    intro missing
    rw [if_pos missing] at generated
    cases generated
  rw [if_neg missing] at generated
  have inChain : nHeightMintAdded < chainActive.blocks.length := by
    rw [ActiveChain.blockAt_natCast, Option.isNone_iff_eq_none, List.getElem?_eq_none_iff]
      at missing
    omega
  have reached := @checkpointAfterMint_le chainActive nHeightMintAdded
    (chainActive.height - 1 - nHeightMintAdded).toNat nHeightMintAdded
  have after : nHeightMintAdded / 10 * 10 + 10 <
      nHeightMintAdded + (chainActive.height - 1 - (nHeightMintAdded : Int)).toNat →
      checkpointAfterMint chainActive nHeightMintAdded
        (chainActive.height - 1 - nHeightMintAdded).toNat nHeightMintAdded = _ :=
    checkpointAfterMint_eq (Nat.le_refl _) (by omega)
  generalize checkpointAfterMint chainActive nHeightMintAdded
    (chainActive.height - 1 - nHeightMintAdded).toNat nHeightMintAdded = outcome
    at generated reached after
  rw [if_neg (by rw [sound.never.lastGood]; omega), first] at generated
  obtain ⟨stop, later, above, tens, found, deep, read, coins⟩ :=
    generateFrom_spec sound (by omega) (started _).1 generated
  have checkpoint := after (by omega)
  rw [Prod.mk.injEq] at checkpoint
  have there : nHeightMintAdded / 10 * 10 + 10 < chainActive.blocks.length := by omega
  rw [List.getElem?_eq_getElem there, Option.elim_some] at checkpoint
  refine ⟨stop, _, later, by omega, tens, List.getElem?_eq_getElem there, found, read, ?_⟩
  rw [coins, (started _).2, checkpoint.1]

end Sound

/-! ## Values as products of coins -/

/-- The view of accumulator values as the coins that they are products of. -/
def coinKit (getChecksum : Multiset CBigNum → Nat)
    (getChecksum_lt : ∀ coins, getChecksum coins < 2 ^ 32) :
    AccumulatorKit (Multiset CBigNum) where
  accumulatorBase := 0
  increment coins coin := coin ::ₘ coins
  getChecksum := getChecksum
  getChecksum_lt := getChecksum_lt

section Coins

variable {getChecksum : Multiset CBigNum → Nat}
  {getChecksum_lt : ∀ coins, getChecksum coins < 2 ^ 32}

theorem foldl_increment_coinKit (added : List CBigNum) (coins : Multiset CBigNum) :
    added.foldl (coinKit getChecksum getChecksum_lt).increment coins =
      (added : Multiset CBigNum) + coins := by
  induction added generalizing coins with
  | nil => exact (zero_add coins).symm
  | cons coin rest ih =>
    rw [List.foldl_cons, ih, ← Multiset.cons_coe, Multiset.cons_add]
    exact Multiset.add_cons coin _ _

theorem accumulatedBelow_coinKit
    (params : CChainParams) (nHeight : Nat) (denom : CoinDenomination) :
    chainActive.accumulatedBelow (coinKit getChecksum getChecksum_lt) params nHeight denom =
      (chainActive.mintedBelow params denom nHeight : Multiset CBigNum) := by
  unfold ActiveChain.accumulatedBelow
  rw [foldl_increment_coinKit]
  exact add_zero _

/-- Coins are those other than one and the copies of that one. -/
theorem coe_eq_filter_add_replicate (coins : List CBigNum) (spent : CBigNum) :
    (coins : Multiset CBigNum) =
      ((coins.filter fun bnValue => bnValue ≠ spent : List CBigNum) : Multiset CBigNum) +
        Multiset.replicate (coins.count spent) spent := by
  have parts := Multiset.filter_add_not (fun bnValue => bnValue = spent) (coins : Multiset CBigNum)
  rw [Multiset.filter_eq', Multiset.coe_count, add_comm] at parts
  rw [← parts, Multiset.filter_coe]

variable {values : Set (Multiset CBigNum)} {coin : PublicCoin}

/-- At and above the start of zerocoin, a counted block adds the coins minted in it but for the
one that is spent. -/
theorem SoundChain.addedAt_eq
    (sound : SoundChain node (coinKit getChecksum getChecksum_lt) values chainActive)
    {nHeight : Nat}
    (active : node.params.getChainHeight .h5 ≤ nHeight)
    (counted : nHeight / 10 * 10 + 20 < chainActive.blocks.length)
    (nHeightMintAdded : Int) :
    node.addedAt chainActive coin nHeightMintAdded nHeight =
      if (nHeight : Int) = nHeightMintAdded then
        (chainActive.mintedAt node.params coin.denomination nHeight).filter
          fun bnValue => bnValue ≠ coin.value
      else chainActive.mintedAt node.params coin.denomination nHeight := by
  have short := sound.short
  obtain ⟨block, found, listed⟩ :=
    AccumulatorNode.listed_of_valid sound.never sound.short sound.valid active counted
  have minted : chainActive.mintedAt node.params coin.denomination nHeight =
      coinsOf coin.denomination block.publicCoins := by
    unfold ActiveChain.mintedAt
    rw [if_neg (Int.not_lt.mpr active), found, Option.elim_some]
  rw [addedAt_of_listed sound.never sound.unbanned found listed (by omega), minted]

/-- The coins minted in the blocks that a witness has are those that it adds, and the coin that
is spent as often as its block mints it. -/
theorem SoundChain.minted_eq_added
    (sound : SoundChain node (coinKit getChecksum getChecksum_lt) values chainActive)
    {first nHeightMintAdded stop : Nat}
    (active : node.params.getChainHeight .h5 ≤ first)
    (within : first ≤ nHeightMintAdded)
    (below : nHeightMintAdded < stop)
    (tens : stop % 10 = 0)
    (counted : stop + 10 < chainActive.blocks.length) :
    (((List.range' first (stop - first)).flatMap
        (chainActive.mintedAt node.params coin.denomination) : List CBigNum) : Multiset CBigNum) =
      (((List.range' first (stop - first)).flatMap
        (node.addedAt chainActive coin nHeightMintAdded) : List CBigNum) : Multiset CBigNum) +
        Multiset.replicate
          ((chainActive.mintedAt node.params coin.denomination nHeightMintAdded).count coin.value)
          coin.value := by
  have added {i : Nat} (above : first ≤ i) (before : i < stop) :=
    @SoundChain.addedAt_eq node chainActive _ _ _ coin sound i (by omega) (by omega)
      nHeightMintAdded
  have parted : List.range' first (stop - first) =
      List.range' first (nHeightMintAdded - first) ++ nHeightMintAdded ::
        List.range' (nHeightMintAdded + 1) (stop - nHeightMintAdded - 1) := by
    have later : stop - nHeightMintAdded - 1 + 1 = stop - nHeightMintAdded := by omega
    have whole : nHeightMintAdded - first + (stop - nHeightMintAdded) = stop - first := by omega
    have joined := @List.range'_append_1 first (nHeightMintAdded - first) (stop - nHeightMintAdded)
    rw [Nat.add_sub_cancel' within, whole] at joined
    rw [← List.range'_succ, later]
    exact joined.symm
  have others {from_ count : Nat} (above : first ≤ from_) (before : from_ + count ≤ stop)
      (apart : nHeightMintAdded < from_ ∨ from_ + count ≤ nHeightMintAdded) :
      (List.range' from_ count).flatMap (node.addedAt chainActive coin nHeightMintAdded) =
        (List.range' from_ count).flatMap (chainActive.mintedAt node.params coin.denomination) := by
    apply List.flatMap_congr
    intro i member
    have inside := List.mem_range'_1.mp member
    rw [added (by omega) (by omega), if_neg (by omega)]
  rw [parted]
  simp only [List.flatMap_append, List.flatMap_cons]
  rw [others (by omega) (by omega) (by omega), others (by omega) (by omega) (by omega),
    added within below, if_pos rfl]
  simp only [← Multiset.coe_add]
  rw [coe_eq_filter_add_replicate
    (chainActive.mintedAt node.params coin.denomination nHeightMintAdded) coin.value,
    add_right_comm (Multiset.ofList (List.filter _ _)), ← add_assoc]

/-- The accumulator is that of a checkpoint of the chain: the checkpoint has its checksum, and it
accumulates the coins that the checkpoint counts. -/
def OfCheckpoint (kit : AccumulatorKit Value) (params : CChainParams) (chainActive : ActiveChain)
    (denom : CoinDenomination) (bnValue : Value) : Prop :=
  ∃ nHeight block, chainActive.blocks[nHeight]? = some block ∧
    parseChecksum block.nAccumulatorCheckpoint denom = kit.getChecksum bnValue ∧
    bnValue = chainActive.accumulatedBelow kit params (nHeight / 10 * 10 - 10) denom

/-- The value of the first checkpoint after the mint is still stored, or no coin of the
denomination was minted before. -/
def StartsWhole (chainActive : ActiveChain) (params : CChainParams) (store : AccumulatorStore kit)
    (denom : CoinDenomination) (nHeightMintAdded : Nat) : Prop :=
  (∃ before, chainActive.blocks[nHeightMintAdded / 10 * 10 + 10]? = some before ∧
    (store.getAccumulatorValueFromDB before.nAccumulatorCheckpoint denom).isSome = true) ∨
  chainActive.mintedBelow params denom (nHeightMintAdded / 10 * 10) = []

variable {store : AccumulatorStore (coinKit getChecksum getChecksum_lt)}

theorem SoundChain.value_eq
    (sound : SoundChain node (coinKit getChecksum getChecksum_lt) values chainActive)
    {block : CBlock}
    (found : chainActive.blocks[nHeight]? = some block)
    {denom : CoinDenomination}
    (listed : denom ∈ zerocoinDenomList)
    {bnValue : Multiset CBigNum}
    (occurs : bnValue ∈ values)
    (checksum : getChecksum bnValue = parseChecksum block.nAccumulatorCheckpoint denom) :
    bnValue = (chainActive.mintedBelow node.params denom (nHeight / 10 * 10 - 10) :
      Multiset CBigNum) := by
  have represents := AccumulatorNode.represents_of_valid sound.never sound.collisionFree
    sound.known sound.genesis sound.short sound.valid nHeight block found
  have view := @accumulatedBelow_coinKit chainActive getChecksum getChecksum_lt node.params
    (nHeight / 10 * 10 - 10) denom
  have inChain : nHeight < chainActive.blocks.length := (List.getElem?_eq_some_iff.mp found).1
  rw [← view]
  exact represents.value_eq sound.collisionFree listed (sound.known _ (by omega) denom listed)
    occurs checksum

/-- Below the start of zerocoin a witness has all the coins that are counted, without the coin
that is spent. -/
theorem SoundChain.length_minted_le
    (sound : SoundChain node (coinKit getChecksum getChecksum_lt) values chainActive)
    {first nHeightMintAdded stop : Nat}
    (inactive : (nHeightMintAdded : Int) < node.params.getChainHeight .h5)
    (within : first ≤ nHeightMintAdded)
    (below : nHeightMintAdded < stop)
    (tens : stop % 10 = 0)
    (counted : stop + 10 < chainActive.blocks.length) :
    (chainActive.mintedBelow node.params coin.denomination stop).length ≤
      ((List.range' first (stop - first)).flatMap
        (node.addedAt chainActive coin nHeightMintAdded)).length := by
  have parted := @ActiveChain.mintedBelow_add node.params chainActive coin.denomination first
    (stop - first)
  have nothing : chainActive.mintedBelow node.params coin.denomination first = [] :=
    ActiveChain.mintedBelow_start (by omega) coin.denomination
  rw [Nat.add_sub_cancel' (by omega), nothing, List.nil_append] at parted
  rw [parted, List.length_flatMap, List.length_flatMap]
  apply List.sum_le_sum
  intro i member
  have inside := List.mem_range'_1.mp member
  by_cases early : (i : Int) < node.params.getChainHeight .h5
  · unfold ActiveChain.mintedAt
    rw [if_pos early]
    exact Nat.zero_le _
  · rw [sound.addedAt_eq (by omega) (by omega), if_neg (by omega)]

/-- Some coins and copies of another are that one coin if there is one copy and no more. -/
theorem add_replicate_eq_cons_iff
    {others rest : Multiset CBigNum} {copies : Nat} {spent : CBigNum}
    (positive : 0 < copies) :
    others + (rest + Multiset.replicate copies spent) = spent ::ₘ others ↔
      copies = 1 ∧ rest = 0 := by
  rw [← Multiset.singleton_add, add_comm {spent} others, add_right_inj]
  constructor
  · intro same
    have cards := congrArg Multiset.card same
    rw [Multiset.card_add, Multiset.card_replicate, Multiset.card_singleton] at cards
    exact ⟨by omega, Multiset.card_eq_zero.mp (by omega)⟩
  · rintro ⟨rfl, rfl⟩
    rw [zero_add, Multiset.replicate_one]

/-- The coins of a witness and the coin itself are those of the accumulator exactly if the coin
was minted since zerocoin started, only once in its block, and the witness started whole. -/
theorem accumulator_eq_cons_witness_iff
    (sound : SoundChain node (coinKit getChecksum getChecksum_lt) values chainActive)
    (within : store.Within values)
    {nHeightMintAdded : Nat} {block : CBlock}
    (height : node.mintHeight coin = some (nHeightMintAdded : Int))
    (found : chainActive.blocks[nHeightMintAdded]? = some block)
    (minted : coin ∈ block.publicCoins)
    {nSecurityLevel random : Int} {state : WitnessState (Multiset CBigNum)}
    (generated : node.generateAccumulatorWitness chainActive store coin 0 0 nSecurityLevel
      random = some state) :
    (state.accumulator = coin.value ::ₘ state.witness ∧
      OfCheckpoint (coinKit getChecksum getChecksum_lt) node.params chainActive
        coin.denomination state.accumulator) ↔
    node.params.getChainHeight .h5 ≤ nHeightMintAdded ∧
      (coinsOf coin.denomination block.publicCoins).count coin.value = 1 ∧
      StartsWhole chainActive node.params store coin.denomination nHeightMintAdded := by
  have listed : coin.denomination ∈ zerocoinDenomList :=
    mem_zerocoinDenomList (AccumulatorNode.denomination_of_mem_publicCoins minted)
  obtain ⟨stop, before, later, above, tens, foundBefore, foundLater, read, witness⟩ :=
    generateAccumulatorWitness_spec sound height generated
  have counted : stop + 10 < chainActive.blocks.length :=
    (List.getElem?_eq_some_iff.mp foundLater).1
  have cut : (stop + 10) / 10 * 10 - 10 = stop := by omega
  have cutBefore : (nHeightMintAdded / 10 * 10 + 10) / 10 * 10 - 10 =
      nHeightMintAdded / 10 * 10 := by omega
  have accumulator := sound.value_eq foundLater listed (within.databased _ _ read)
    (store.databased _ _ read)
  have ofCheckpoint : OfCheckpoint (coinKit getChecksum getChecksum_lt) node.params chainActive
      coin.denomination state.accumulator :=
    ⟨stop + 10, later, foundLater, (store.databased _ _ read).symm,
      accumulator.trans (accumulatedBelow_coinKit _ _ _).symm⟩
  rw [cut] at accumulator
  rw [foldl_increment_coinKit] at witness
  rw [and_iff_left ofCheckpoint, accumulator, witness]
  by_cases active : node.params.getChainHeight .h5 ≤ (nHeightMintAdded : Int)
  · have startMultiple := sound.startMultiple
    have parts := @SoundChain.minted_eq_added node chainActive _ _ values coin sound
      (nHeightMintAdded / 10 * 10) nHeightMintAdded stop (by omega) (by omega) above tens counted
    have here : chainActive.mintedAt node.params coin.denomination nHeightMintAdded =
        coinsOf coin.denomination block.publicCoins := by
      unfold ActiveChain.mintedAt
      rw [if_neg (Int.not_lt.mpr active), found, Option.elim_some]
    have copies : 0 < (coinsOf coin.denomination block.publicCoins).count coin.value := by
      rw [List.count_pos_iff]
      exact List.mem_map.mpr ⟨coin, List.mem_filter.mpr ⟨minted, decide_eq_true rfl⟩, rfl⟩
    have whole := @ActiveChain.mintedBelow_add node.params chainActive coin.denomination
      (nHeightMintAdded / 10 * 10) (stop - nHeightMintAdded / 10 * 10)
    rw [Nat.add_sub_cancel' (by omega)] at whole
    rw [whole, ← Multiset.coe_add, parts, here, and_iff_right active]
    cases started : store.getAccumulatorValueFromDB before.nAccumulatorCheckpoint
      coin.denomination with
    | some bnValue =>
      have value : bnValue = (chainActive.mintedBelow node.params coin.denomination
          (nHeightMintAdded / 10 * 10) : Multiset CBigNum) := by
        rw [← cutBefore]
        rcases Option.or_eq_some_iff.mp started with known | ⟨-, known⟩
        · exact sound.value_eq foundBefore listed (within.mapped _ _ known)
            (store.mapped _ _ known)
        · exact sound.value_eq foundBefore listed (within.databased _ _ known)
            (store.databased _ _ known)
      have startsWhole : StartsWhole chainActive node.params store coin.denomination
          nHeightMintAdded :=
        Or.inl ⟨before, foundBefore, by rw [started]; rfl⟩
      rw [Option.getD_some, value, and_iff_left startsWhole, ← add_assoc,
        add_comm (Multiset.ofList (chainActive.mintedBelow _ _ _))]
      have exact_iff := @add_replicate_eq_cons_iff
        (Multiset.ofList ((List.range' (nHeightMintAdded / 10 * 10)
            (stop - nHeightMintAdded / 10 * 10)).flatMap
              (node.addedAt chainActive coin nHeightMintAdded)) +
          Multiset.ofList (chainActive.mintedBelow node.params coin.denomination
            (nHeightMintAdded / 10 * 10))) 0 _ coin.value copies
      rw [zero_add, and_iff_left rfl] at exact_iff
      exact exact_iff
    | none =>
      rw [Option.getD_none, add_zero, add_left_comm, add_replicate_eq_cons_iff copies,
        Multiset.coe_eq_zero]
      refine and_congr_right fun _ => ⟨Or.inr, ?_⟩
      rintro (⟨other, foundOther, readable⟩ | nothing)
      · rw [foundBefore] at foundOther
        cases foundOther
        rw [started] at readable
        cases readable
      · exact nothing
  · refine iff_of_false ?_ fun holds => active holds.1
    intro same
    have fewer := @SoundChain.length_minted_le node chainActive _ _ values coin sound
      (nHeightMintAdded / 10 * 10) nHeightMintAdded stop (by omega) (by omega) above tens counted
    have cards := congrArg Multiset.card same
    rw [Multiset.card_cons, Multiset.card_add, Multiset.coe_card, Multiset.coe_card] at cards
    omega

end Coins

section Example

/-- Checksums by the sum of the coins, none of them zero. -/
def sumKit : AccumulatorKit (Multiset CBigNum) :=
  coinKit (fun coins => (coins.map Int.toNat).sum % (2 ^ 32 - 1) + 1) fun _ =>
    Nat.succ_lt_succ (Nat.mod_lt _ (by decide))

/-- A network on which zerocoin starts at the height 20, with a node that finds the coin 3 in
the block 21. -/
def nodeFromTwenty : WitnessNode where
  params := { CChainParams.main with getChainHeight := fun _ => 20 }
  nBlockLastGoodCheckpoint := intMax
  fraud := ⟨fun _ => false, fun _ => false⟩
  shutdownRequested := fun _ => false
  readBlockFromDisk := fun _ => true
  nRequiredAccumulation := 1
  readCoinMint bnValue := if bnValue = 3 then some 1 else none
  getTransaction := some
  mapBlockIndex _ := some 21

/-- An output that mints a coin of the smallest denomination. -/
def mintOutput (value : UInt8) : CTxOut where
  nValue := 50 * coin
  scriptPubKey := [0xc1, 0, 0, 0, 0, 0, value]

/-- Fifty-one blocks: the block 21 mints copies of the coin 3, the block 22 the coin 5, and the
block 40 has the checkpoint of the two. -/
def chainOfCopies (copies : Nat) : ActiveChain where
  blocks := List.replicate 21 (AccumulatorNode.blockOfOutputs []) ++
    [AccumulatorNode.blockOfOutputs (List.replicate copies (mintOutput 3)),
      AccumulatorNode.blockOfOutputs [mintOutput 5]] ++
    List.replicate 17 (AccumulatorNode.blockOfOutputs []) ++
    List.replicate 11
      { AccumulatorNode.blockOfOutputs [] with
        nAccumulatorCheckpoint := sumKit.getCheckpoint
          (Function.update sumKit.reset .zqOne (5 ::ₘ Multiset.replicate copies 3)) }
  unversioned := by
    intro block member old
    simp only [List.mem_append, List.mem_replicate, List.mem_cons, List.not_mem_nil, or_false]
      at member
    rcases member with ((⟨-, rfl⟩ | rfl | rfl) | ⟨-, rfl⟩) | ⟨-, rfl⟩
    all_goals exact absurd (show (5 : Int) ≤ 4 from old) (by decide)

/-- The values of the checkpoint of the two coins are stored. -/
def storeOfCopies (copies : Nat) : AccumulatorStore sumKit :=
  (AccumulatorNode.emptyStore sumKit).databaseChecksums
    (Function.update sumKit.reset .zqOne (5 ::ₘ Multiset.replicate copies 3))

/-- The values that occur on the chain. -/
def valuesOfCopies (copies : Nat) : List (Multiset CBigNum) :=
  [0, Multiset.replicate copies 3, 5 ::ₘ Multiset.replicate copies 3]

theorem storeOfCopies_within (copies : Nat) :
    (storeOfCopies copies).Within {bnValue | bnValue ∈ valuesOfCopies copies} := by
  apply (AccumulatorNode.emptyStore_within sumKit _).databaseChecksums
  intro denom
  rw [Function.update_apply]
  split_ifs
  · simp [valuesOfCopies]
  · exact List.mem_cons_self

theorem soundChain_chainOfCopies
    (distinct : ∀ first ∈ valuesOfCopies copies, ∀ second ∈ valuesOfCopies copies,
      sumKit.getChecksum first = sumKit.getChecksum second → first = second)
    (known : ∀ count < 52, ∀ denom ∈ zerocoinDenomList,
      (chainOfCopies copies).accumulatedBelow sumKit nodeFromTwenty.params count denom ∈
        valuesOfCopies copies)
    (passes : ∀ nHeight < 51, 0 < nHeight →
      (nodeFromTwenty.validateAccumulatorCheckpoint false ((chainOfCopies copies).upTo nHeight)
        (storeOfCopies copies)
        (((chainOfCopies copies).blocks[nHeight]?).getD (AccumulatorNode.blockOfOutputs []))
        nHeight sumKit.reset).1.isSome = true) :
    SoundChain nodeFromTwenty sumKit {bnValue | bnValue ∈ valuesOfCopies copies}
      (chainOfCopies copies) := by
  have length : (chainOfCopies copies).blocks.length = 51 := by
    simp [chainOfCopies]
  constructor
  · exact ⟨rfl, rfl⟩
  · exact fun _ => rfl
  · rfl
  · decide
  · refine ⟨fun first member second other => distinct first member second other, ?_⟩
    intro bnValue _ zero
    cases zero
  · intro count within denom listed
    exact known count (by omega) denom listed
  · intro block found
    cases found
    rfl
  · rw [length]
    decide
  · intro nHeight block above found
    have inChain : nHeight < 51 := by
      rw [← length]
      exact (List.getElem?_eq_some_iff.mp found).1
    have passed := passes nHeight inChain above
    rw [found, Option.getD_some] at passed
    exact ⟨nodeFromTwenty.toAccumulatorNode, storeOfCopies copies, sumKit.reset, rfl, rfl,
      storeOfCopies_within copies, passed⟩

set_option maxRecDepth 4000 in
theorem accumulator_eq_cons_witness_iff_once :
    ∃ state, nodeFromTwenty.generateAccumulatorWitness (chainOfCopies 1) (storeOfCopies 1)
        ⟨3, .zqOne⟩ 0 0 100 0 = some state ∧
      state.accumulator = 3 ::ₘ state.witness ∧
      OfCheckpoint sumKit nodeFromTwenty.params (chainOfCopies 1) .zqOne state.accumulator := by
  have sound : SoundChain nodeFromTwenty sumKit {bnValue | bnValue ∈ valuesOfCopies 1}
      (chainOfCopies 1) := by
    apply soundChain_chainOfCopies
    · decide
    · decide
    · decide
  have succeeds : (nodeFromTwenty.generateAccumulatorWitness (chainOfCopies 1) (storeOfCopies 1)
      ⟨3, .zqOne⟩ 0 0 100 0).isSome = true := by decide
  obtain ⟨state, generated⟩ := Option.isSome_iff_exists.mp succeeds
  refine ⟨state, generated, ?_⟩
  refine (@accumulator_eq_cons_witness_iff nodeFromTwenty (chainOfCopies 1) _ _ _ ⟨3, .zqOne⟩ _
    sound (storeOfCopies_within 1) 21 (AccumulatorNode.blockOfOutputs [mintOutput 3]) rfl rfl ?_
    100 0 state generated).mpr ⟨?_, ?_, Or.inr ?_⟩
  · decide
  · decide
  · decide
  · decide

set_option maxRecDepth 4000 in
/-- A coin that its transaction mints twice is twice in the accumulator, and not at all in the
witness. -/
theorem coin_minted_twice :
    SoundChain nodeFromTwenty sumKit {bnValue | bnValue ∈ valuesOfCopies 2} (chainOfCopies 2) ∧
      (storeOfCopies 2).Within {bnValue | bnValue ∈ valuesOfCopies 2} ∧
      nodeFromTwenty.mintHeight ⟨3, .zqOne⟩ = some 21 ∧
      (∃ block, (chainOfCopies 2).blocks[21]? = some block ∧
        (⟨3, .zqOne⟩ : PublicCoin) ∈ block.publicCoins) ∧
      ∃ state, nodeFromTwenty.generateAccumulatorWitness (chainOfCopies 2) (storeOfCopies 2)
          ⟨3, .zqOne⟩ 0 0 100 0 = some state ∧
        state.accumulator = {3, 3, 5} ∧ state.witness = {5} ∧
        state.accumulator ≠ 3 ::ₘ state.witness := by
  refine ⟨?_, storeOfCopies_within 2, rfl,
    ⟨AccumulatorNode.blockOfOutputs [mintOutput 3, mintOutput 3], rfl, by decide⟩, ?_⟩
  · apply soundChain_chainOfCopies
    · decide
    · decide
    · decide
  · have succeeds : ((nodeFromTwenty.generateAccumulatorWitness (chainOfCopies 2)
        (storeOfCopies 2) ⟨3, .zqOne⟩ 0 0 100 0).map fun state =>
          decide (state.accumulator = {3, 3, 5} ∧ state.witness = {5})) = some true := by decide
    obtain ⟨state, generated, holds⟩ := Option.map_eq_some_iff.mp succeeds
    obtain ⟨accumulator, witness⟩ := of_decide_eq_true holds
    refine ⟨state, generated, accumulator, witness, ?_⟩
    rw [accumulator, witness]
    decide

end Example

end WitnessNode

end ColossusCoin
