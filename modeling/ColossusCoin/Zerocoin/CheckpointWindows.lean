import ColossusCoin.Zerocoin.AccumulatorMap

/-!
# The mints that a checkpoint counts

Each checkpoint reloads the accumulators of the one before it and adds the mints of ten blocks.
The windows tile the chain: the checkpoint of a height counts the mints from the start of
zerocoin to eleven blocks below it, and each of them once.
-/

namespace ColossusCoin

open CoinDenomination

/-- The public coins of the mint outputs of a block. -/
def CBlock.publicCoins (block : CBlock) : List PublicCoin :=
  block.vtx.flatMap fun tx =>
    (tx.vout.filter fun txout => txout.scriptPubKey.isZerocoinMint).filterMap txOutToPublicCoin

/-- The values of the coins of a denomination. -/
def coinsOf (denom : CoinDenomination) (coins : List PublicCoin) : List CBigNum :=
  (coins.filter fun coin => coin.denomination = denom).map PublicCoin.value

theorem coinsOf_cons (denom : CoinDenomination) (coin : PublicCoin) (coins : List PublicCoin) :
    coinsOf denom (coin :: coins) =
      if coin.denomination = denom then coin.value :: coinsOf denom coins
      else coinsOf denom coins := by
  unfold coinsOf
  rw [List.filter_cons]
  by_cases same : coin.denomination = denom
  · rw [if_pos (decide_eq_true same), if_pos same, List.map_cons]
  · rw [if_neg (by simpa using same), if_neg same]

section Listed

theorem mintsOfOutputs_whole
    (listed : mintsOfOutputs params fraud false txHash outs i = (coins, true)) :
    coins = (outs.filter fun txout => txout.scriptPubKey.isZerocoinMint).filterMap
      txOutToPublicCoin := by
  induction outs generalizing i coins with
  | nil =>
    cases listed
    rfl
  | cons txout rest ih =>
    rw [mintsOfOutputs, Bool.false_and, if_neg Bool.false_ne_true] at listed
    cases minted : txout.scriptPubKey.isZerocoinMint with
    | false =>
      rw [minted, if_pos rfl] at listed
      rw [List.filter_cons_of_neg (by rw [minted]; exact Bool.false_ne_true)]
      exact ih listed
    | true =>
      rw [minted, if_neg (by decide)] at listed
      rw [List.filter_cons, if_pos minted, List.filterMap_cons]
      cases decoded : txOutToPublicCoin txout with
      | none =>
        rw [decoded] at listed
        cases listed
      | some coin =>
        rw [decoded] at listed
        rw [Prod.mk.injEq] at listed
        obtain ⟨rfl, whole⟩ := listed
        exact congrArg (List.cons coin) (ih (Prod.ext rfl whole))

theorem blockToPubcoinList_whole
    (listed : blockToPubcoinList params fraud false txs = some coins) :
    coins = txs.flatMap fun tx =>
      (tx.vout.filter fun txout => txout.scriptPubKey.isZerocoinMint).filterMap
        txOutToPublicCoin := by
  induction txs generalizing coins with
  | nil =>
    cases listed
    rfl
  | cons tx rest ih =>
    rw [blockToPubcoinList, isFilteredMint, Bool.false_and, Bool.or_false] at listed
    rw [List.flatMap_cons]
    cases minting : tx.isZerocoinMint with
    | false =>
      rw [minting, Bool.not_false, if_pos rfl] at listed
      have unminted : (tx.vout.filter fun txout => txout.scriptPubKey.isZerocoinMint) = [] := by
        rw [List.filter_eq_nil_iff]
        rw [CTransaction.isZerocoinMint, List.any_eq_false] at minting
        exact minting
      rw [unminted, ih listed]
      rfl
    | true =>
      rw [minting, Bool.not_true, if_neg Bool.false_ne_true] at listed
      rcases outcome : mintsOfOutputs params fraud false tx.hash tx.vout 0 with ⟨own, _ | _⟩
      · rw [outcome] at listed
        cases listed
      · rw [outcome] at listed
        obtain ⟨others, found, rfl⟩ := Option.map_eq_some_iff.mp listed
        rw [mintsOfOutputs_whole outcome, ih found]

end Listed

variable {Value : Type} {kit : AccumulatorKit Value}

theorem foldlM_accumulate
    (accumulated : coins.foldlM kit.accumulate mapAccumulators = some added)
    (denom : CoinDenomination) :
    added denom = (coinsOf denom coins).foldl kit.increment (mapAccumulators denom) := by
  induction coins generalizing mapAccumulators with
  | nil =>
    cases accumulated
    rfl
  | cons coin rest ih =>
    rw [List.foldlM_cons, AccumulatorKit.accumulate] at accumulated
    split_ifs at accumulated with invalid
    · cases accumulated
    · rw [coinsOf_cons]
      have others := ih accumulated
      rw [Function.update_apply] at others
      by_cases same : coin.denomination = denom
      · rw [if_pos same.symm, same] at others
        rw [if_pos same, List.foldl_cons]
        exact others
      · rw [if_neg fun other => same other.symm] at others
        rw [if_neg same]
        exact others

namespace ActiveChain

/-- The coins of a denomination in the block of a height, none below the start of zerocoin. -/
def mintedAt (params : CChainParams) (chainActive : ActiveChain) (denom : CoinDenomination)
    (nHeight : Nat) : List CBigNum :=
  if (nHeight : Int) < params.getChainHeight .h5 then []
  else chainActive.blocks[nHeight]?.elim [] fun block => coinsOf denom block.publicCoins

/-- The coins of a denomination from the start of zerocoin up to the block before a height, in
the order of the chain. -/
def mintedBelow (params : CChainParams) (chainActive : ActiveChain) (denom : CoinDenomination)
    (nHeight : Nat) : List CBigNum :=
  (List.range nHeight).flatMap (chainActive.mintedAt params denom)

/-- The initial value accumulated with the coins of a denomination below a height. -/
def accumulatedBelow (kit : AccumulatorKit Value) (params : CChainParams)
    (chainActive : ActiveChain) (nHeight : Nat) (denom : CoinDenomination) : Value :=
  (chainActive.mintedBelow params denom nHeight).foldl kit.increment kit.accumulatorBase

section Windows

variable {params : CChainParams} {chainActive : ActiveChain}

theorem blockAt_natCast (nHeight : Nat) :
    chainActive.blockAt nHeight = chainActive.blocks[nHeight]? := by
  unfold blockAt
  rw [if_neg (by omega), Int.toNat_natCast]

/-- The coins below a later height are those below an earlier one and those of the blocks in
between. -/
theorem mintedBelow_add (denom : CoinDenomination) (nHeight count : Nat) :
    chainActive.mintedBelow params denom (nHeight + count) =
      chainActive.mintedBelow params denom nHeight ++
        (List.range' nHeight count).flatMap (chainActive.mintedAt params denom) := by
  have continued := @List.range'_append_1 0 nHeight count
  rw [Nat.zero_add] at continued
  unfold mintedBelow
  rw [← List.flatMap_append, List.range_eq_range', List.range_eq_range', continued]

/-- A window that starts where the blocks below end continues them. -/
theorem accumulatedBelow_add (nHeight count : Nat) (denom : CoinDenomination) :
    chainActive.accumulatedBelow kit params (nHeight + count) denom =
      ((List.range' nHeight count).flatMap (chainActive.mintedAt params denom)).foldl
        kit.increment (chainActive.accumulatedBelow kit params nHeight denom) := by
  unfold accumulatedBelow
  rw [mintedBelow_add, List.foldl_append]

/-- Nothing is counted up to the start of zerocoin. -/
theorem mintedBelow_start
    {nHeight : Nat}
    (below : (nHeight : Int) ≤ params.getChainHeight .h5)
    (denom : CoinDenomination) :
    chainActive.mintedBelow params denom nHeight = [] := by
  unfold mintedBelow
  rw [List.flatMap_eq_nil_iff]
  intro earlier member
  have before := List.mem_range.mp member
  unfold mintedAt
  rw [if_pos (by omega)]

theorem accumulatedBelow_start
    {nHeight : Nat}
    (below : (nHeight : Int) ≤ params.getChainHeight .h5)
    (denom : CoinDenomination) :
    chainActive.accumulatedBelow kit params nHeight denom = kit.accumulatorBase := by
  unfold accumulatedBelow
  rw [mintedBelow_start below, List.foldl_nil]

theorem accumulatedBelow_upTo
    (within : nHeight ≤ count)
    (denom : CoinDenomination) :
    (chainActive.upTo count).accumulatedBelow kit params nHeight denom =
      chainActive.accumulatedBelow kit params nHeight denom := by
  have same : (chainActive.upTo count).mintedBelow params denom nHeight =
      chainActive.mintedBelow params denom nHeight := by
    apply List.flatMap_congr
    intro earlier member
    have before := List.mem_range.mp member
    unfold mintedAt upTo
    rw [List.getElem?_take_of_lt (by omega)]
  unfold accumulatedBelow
  rw [same]

end Windows

end ActiveChain

/-- The checkpoint has the checksums of the accumulators, or is zero with all of them at their
start. -/
def AccumulatorKit.Represents (kit : AccumulatorKit Value) (nCheckpoint : Uint256)
    (mapAccumulators : CoinDenomination → Value) : Prop :=
  (nCheckpoint = 0 ∧ ∀ denom ∈ zerocoinDenomList, mapAccumulators denom = kit.accumulatorBase) ∨
    ∀ denom ∈ zerocoinDenomList,
      parseChecksum nCheckpoint denom = kit.getChecksum (mapAccumulators denom)

theorem AccumulatorKit.Represents.congr
    (represents : kit.Represents nCheckpoint first)
    (same : ∀ denom ∈ zerocoinDenomList, second denom = first denom) :
    kit.Represents nCheckpoint second := by
  rcases represents with ⟨unset, initial⟩ | checksums
  · exact Or.inl ⟨unset, fun denom listed => (same denom listed).trans (initial denom listed)⟩
  · refine Or.inr fun denom listed => ?_
    rw [same denom listed]
    exact checksums denom listed

/-- No two of the values have the same checksum, and only the initial value may have the
checksum zero, which stands for it in a block without a checkpoint. -/
structure AccumulatorKit.CollisionFree (kit : AccumulatorKit Value) (values : Set Value) :
    Prop where
  distinct : Set.InjOn kit.getChecksum values
  unmarked : ∀ bnValue ∈ values, kit.getChecksum bnValue = 0 → bnValue = kit.accumulatorBase

/-- All stored values are among some. -/
structure AccumulatorStore.Within (store : AccumulatorStore kit) (values : Set Value) : Prop where
  databased : ∀ nChecksum bnValue, store.zerocoinDB nChecksum = some bnValue → bnValue ∈ values
  mapped : ∀ nChecksum bnValue,
    store.mapAccumulatorValues nChecksum = some bnValue → bnValue ∈ values

theorem AccumulatorStore.Within.databaseChecksums
    {store : AccumulatorStore kit}
    (within : store.Within values)
    (added : ∀ denom, mapAccumulators denom ∈ values) :
    (store.databaseChecksums mapAccumulators).Within values := by
  unfold AccumulatorStore.databaseChecksums
  generalize zerocoinDenomList = denominations
  induction denominations generalizing store with
  | nil => exact within
  | cons denom rest ih =>
    refine ih ⟨?_, ?_⟩
    · intro nChecksum bnValue read
      unfold AccumulatorStore.addAccumulatorChecksum at read
      dsimp only at read
      rw [Function.update_apply] at read
      split_ifs at read
      · cases read
        exact added denom
      · exact within.databased _ _ read
    · intro nChecksum bnValue read
      rcases Option.or_eq_some_iff.mp read with known | ⟨-, new⟩
      · exact within.mapped _ _ known
      · split_ifs at new
        cases new
        exact added denom

theorem AccumulatorKit.parseChecksum_getCheckpoint
    (mapAccumulators : CoinDenomination → Value)
    (listed : denom ∈ zerocoinDenomList) :
    parseChecksum (kit.getCheckpoint mapAccumulators) denom =
      kit.getChecksum (mapAccumulators denom) := by
  let hashes (denom : CoinDenomination) : CBigNum := kit.getChecksum (mapAccumulators denom)
  have checksum (denom : CoinDenomination) : ColossusCoin.getChecksum Int.toNat (hashes denom) =
      kit.getChecksum (mapAccumulators denom) := by
    unfold ColossusCoin.getChecksum
    rw [Int.toNat_natCast, Nat.mod_eq_of_lt (kit.getChecksum_lt _)]
  have same : kit.getCheckpoint mapAccumulators = ColossusCoin.getCheckpoint Int.toNat hashes := by
    unfold getCheckpoint ColossusCoin.getCheckpoint
    simp only [checksum]
  rw [same, ColossusCoin.parseChecksum_getCheckpoint _ _ listed, checksum]

theorem parseChecksum_zero (denom : CoinDenomination) : parseChecksum 0 denom = 0 := by
  rw [parseChecksum, Nat.zero_shiftRight, Nat.zero_mod]

section Loading

variable {values : Set Value} {store : AccumulatorStore kit} {nCheckpoint : Uint256}
  {mapAccumulators loaded : CoinDenomination → Value}

theorem AccumulatorKit.load_of_mem
    (read : kit.load store nCheckpoint initial = some loaded)
    (listed : denom ∈ zerocoinDenomList) :
    store.zerocoinDB (parseChecksum nCheckpoint denom) = some (loaded denom) := by
  unfold load at read
  split_ifs at read with readable
  cases read
  obtain ⟨bnValue, found⟩ :=
    Option.isSome_iff_exists.mp (List.all_eq_true.mp readable denom listed)
  dsimp only
  rw [if_pos listed, found, Option.getD_some]

theorem AccumulatorKit.Represents.value_eq
    (represents : kit.Represents nCheckpoint mapAccumulators)
    (collisionFree : kit.CollisionFree values)
    (listed : denom ∈ zerocoinDenomList)
    (known : mapAccumulators denom ∈ values)
    (occurs : bnValue ∈ values)
    (checksum : kit.getChecksum bnValue = parseChecksum nCheckpoint denom) :
    bnValue = mapAccumulators denom := by
  rcases represents with ⟨rfl, initial⟩ | checksums
  · rw [parseChecksum_zero] at checksum
    rw [initial denom listed]
    exact collisionFree.unmarked _ occurs checksum
  · rw [checksums denom listed] at checksum
    exact collisionFree.distinct occurs known checksum

theorem AccumulatorNode.lastAccumulators_of_represents
    (collisionFree : kit.CollisionFree values)
    (within : store.Within values)
    (known : ∀ denom ∈ zerocoinDenomList, mapAccumulators denom ∈ values)
    (represents : kit.Represents nCheckpoint mapAccumulators)
    (last : AccumulatorNode.lastAccumulators store nCheckpoint = some loaded)
    (listed : denom ∈ zerocoinDenomList) :
    loaded denom = mapAccumulators denom := by
  unfold AccumulatorNode.lastAccumulators at last
  cases read : kit.load store nCheckpoint kit.reset with
  | some values =>
    rw [read] at last
    cases last
    have found := AccumulatorKit.load_of_mem read listed
    exact represents.value_eq collisionFree listed (known denom listed)
      (within.databased _ _ found)
      (store.databased _ _ found)
  | none =>
    rw [read] at last
    split_ifs at last with unset
    cases last
    subst unset
    rcases represents with ⟨-, initial⟩ | checksums
    · exact (initial denom listed).symm
    · have zero := checksums denom listed
      rw [parseChecksum_zero] at zero
      exact (collisionFree.unmarked _ (known denom listed) zero.symm).symm

end Loading

namespace AccumulatorNode

variable {node : AccumulatorNode} {chainActive : ActiveChain}

/-- The loop adds the coins of its blocks.  Where it finds none the accumulators stay. -/
theorem accumulateBlocks_adds
    {left nHeight : Nat}
    (ran : node.accumulateBlocks kit chainActive false left nHeight mapAccumulators
      nTotalMintsFound = some (accumulated, total)) :
    (∀ denom, accumulated denom =
      ((List.range' nHeight left).flatMap (chainActive.mintedAt node.params denom)).foldl
        kit.increment (mapAccumulators denom)) ∧
      nTotalMintsFound ≤ total ∧
      (total = nTotalMintsFound → accumulated = mapAccumulators) := by
  induction left generalizing nHeight mapAccumulators nTotalMintsFound with
  | zero =>
    cases ran
    exact ⟨fun denom => rfl, Nat.le_refl _, fun _ => rfl⟩
  | succ left ih =>
    have next : (nHeight : Int) + 1 = ((nHeight + 1 : Nat) : Int) := rfl
    unfold accumulateBlocks at ran
    rw [ActiveChain.blockAt_natCast, next] at ran
    simp only [List.range'_succ, List.flatMap_cons, List.foldl_append]
    cases found : chainActive.blocks[nHeight]? with
    | none =>
      rw [found] at ran
      cases ran
    | some block =>
      rw [found] at ran
      dsimp only at ran
      split_ifs at ran with stopped early unread
      · have unminted (denom : CoinDenomination) :
            chainActive.mintedAt node.params denom nHeight = [] := if_pos early
        simp only [unminted, List.foldl_nil]
        exact ih ran
      · have minted (denom : CoinDenomination) :
            chainActive.mintedAt node.params denom nHeight = coinsOf denom block.publicCoins := by
          unfold ActiveChain.mintedAt
          rw [if_neg early, found, Option.elim_some]
        cases listed : blockToPubcoinList node.params node.fraud false block.vtx with
        | none =>
          rw [listed] at ran
          cases ran
        | some listPubcoins =>
          rw [listed] at ran
          have coins : listPubcoins = block.publicCoins := blockToPubcoinList_whole listed
          cases added : listPubcoins.foldlM kit.accumulate mapAccumulators with
          | none =>
            simp only [added] at ran
            cases ran
          | some following =>
            simp only [added] at ran
            obtain ⟨values, atLeast, unchanged⟩ := ih ran
            refine ⟨fun denom => ?_, by omega, fun same => ?_⟩
            · rw [values denom, foldlM_accumulate added, coins, minted]
            · have empty : listPubcoins = [] := List.eq_nil_of_length_eq_zero (by omega)
              rw [unchanged (by omega)]
              rw [empty] at added
              exact (Option.some.inj added).symm

theorem denomination_of_mem_publicCoins
    {block : CBlock} {coin : PublicCoin}
    (member : coin ∈ block.publicCoins) :
    coin.denomination ≠ zqError := by
  obtain ⟨tx, -, minted⟩ := List.mem_flatMap.mp member
  obtain ⟨txout, -, decoded⟩ := List.mem_filterMap.mp minted
  unfold txOutToPublicCoin at decoded
  split_ifs at decoded with invalid
  cases decoded
  exact invalid

/-- The network never recalculates its accumulators. -/
structure NeverRecalculates (node : AccumulatorNode) : Prop where
  recalculate : node.params.nBlockRecalculateAccumulators = intMax
  lastGood : node.nBlockLastGoodCheckpoint = intMax

/-- The heights that are multiples of ten are below that of the recalculation. -/
theorem NeverRecalculates.multiple_lt
    (never : node.NeverRecalculates)
    (multiple : nHeight.tmod 10 = 0)
    (bounded : nHeight ≤ intMax) :
    nHeight < node.params.nBlockRecalculateAccumulators := by
  rw [never.recalculate]
  rcases Int.lt_or_eq_of_le bounded with less | same
  · exact less
  · rw [same] at multiple
    exact absurd multiple (by decide)

section Calculation

variable {store : AccumulatorStore kit} {nHeight : Int}

section

variable (never : node.NeverRecalculates)
include never

/-- A checkpoint that is computed comes from the loop over the ten blocks of its window. -/
theorem accumulateBlocks_of_calculate
    (active : node.params.getChainHeight .h5 ≤ nHeight)
    (multiple : nHeight.tmod 10 = 0)
    (bounded : nHeight ≤ intMax)
    (calculated : (node.calculateAccumulatorCheckpoint chainActive store nHeight
      mapAccumulators).1 = some (nCheckpoint, accumulated)) :
    ∃ previous last total,
      chainActive.blockAt (nHeight - 1) = some previous ∧
        lastAccumulators store previous.nAccumulatorCheckpoint = some last ∧
        0 ≤ nHeight - 20 ∧
        node.accumulateBlocks kit chainActive false 10 ((nHeight - 20).toNat : Int) last 0 =
          some (accumulated, total) ∧
        nCheckpoint = if total = 0 then previous.nAccumulatorCheckpoint
          else kit.getCheckpoint accumulated := by
  have below := never.multiple_lt multiple bounded
  unfold calculateAccumulatorCheckpoint at calculated
  rw [if_neg (Int.not_lt.mpr active)] at calculated
  cases parent : chainActive.blockAt (nHeight - 1) with
  | none =>
    rw [parent] at calculated
    cases calculated
  | some previous =>
    rw [parent] at calculated
    dsimp only at calculated
    rw [if_neg (fun other => other multiple)] at calculated
    cases started : lastAccumulators store previous.nAccumulatorCheckpoint with
    | none =>
      rw [started] at calculated
      cases calculated
    | some last =>
      rw [started] at calculated
      dsimp only at calculated
      rw [if_neg (Int.ne_of_lt below)] at calculated
      unfold checkpointFrom at calculated
      have window : (nHeight - 10 - (nHeight - 20)).toNat = 10 := by omega
      rw [window, decide_eq_false (by omega)] at calculated
      obtain ⟨⟨added, total⟩, ran, result⟩ := Option.map_eq_some_iff.mp calculated
      have deep : 0 ≤ nHeight - 20 := by
        by_contra shallow
        unfold accumulateBlocks ActiveChain.blockAt at ran
        rw [if_pos (by omega)] at ran
        cases ran
      rw [Prod.mk.injEq] at result
      obtain ⟨packed, rfl⟩ := result
      refine ⟨previous, last, total, rfl, started, deep, ?_, packed.symm⟩
      rw [Int.toNat_of_nonneg deep]
      exact ran

/-- From a checkpoint that counts the mints of the blocks twenty below, a height that is a
multiple of ten gets one that counts those of the blocks ten below. -/
theorem calculateAccumulatorCheckpoint_adds
    (collisionFree : kit.CollisionFree values)
    (within : store.Within values)
    (known : ∀ denom ∈ zerocoinDenomList,
      chainActive.accumulatedBelow kit node.params (nHeight - 20).toNat denom ∈ values)
    (active : node.params.getChainHeight .h5 ≤ nHeight)
    (multiple : nHeight.tmod 10 = 0)
    (bounded : nHeight ≤ intMax)
    {previous : CBlock}
    (parent : chainActive.blockAt (nHeight - 1) = some previous)
    (represents : kit.Represents previous.nAccumulatorCheckpoint
      (chainActive.accumulatedBelow kit node.params (nHeight - 20).toNat))
    {mapAccumulators accumulated : CoinDenomination → Value} {nCheckpoint : Uint256}
    (calculated : (node.calculateAccumulatorCheckpoint chainActive store nHeight
      mapAccumulators).1 = some (nCheckpoint, accumulated)) :
    kit.Represents nCheckpoint (chainActive.accumulatedBelow kit node.params (nHeight - 10).toNat) ∧
      ∀ denom ∈ zerocoinDenomList, accumulated denom =
        chainActive.accumulatedBelow kit node.params (nHeight - 10).toNat denom := by
  obtain ⟨_, last, total, found, started, deep, ran, packed⟩ :=
    accumulateBlocks_of_calculate never active multiple bounded calculated
  rw [parent] at found
  cases found
  obtain ⟨sums, -, unchanged⟩ := accumulateBlocks_adds ran
  have following : (nHeight - 10).toNat = (nHeight - 20).toNat + 10 := by omega
  have loaded : ∀ denom ∈ zerocoinDenomList, last denom =
      chainActive.accumulatedBelow kit node.params (nHeight - 20).toNat denom :=
    fun denom listed =>
      lastAccumulators_of_represents collisionFree within known represents started listed
  have counts : ∀ denom ∈ zerocoinDenomList, accumulated denom =
      chainActive.accumulatedBelow kit node.params (nHeight - 10).toNat denom := by
    intro denom listed
    rw [following, ActiveChain.accumulatedBelow_add, sums denom, loaded denom listed]
  refine ⟨?_, counts⟩
  rw [packed]
  split_ifs with unminted
  · refine represents.congr fun denom listed => ?_
    rw [← counts denom listed, unchanged unminted]
    exact loaded denom listed
  · refine Or.inr fun denom listed => ?_
    rw [AccumulatorKit.parseChecksum_getCheckpoint _ listed, counts denom listed]

theorem calculated_of_validate
    (bounded : nHeight ≤ intMax)
    (passed : (node.validateAccumulatorCheckpoint false chainActive store block nHeight
      mapAccumulators).1.isSome = true) :
    (node.params.getChainHeight .h5 ≤ nHeight ∧ nHeight.tmod 10 = 0 ∧
      ∃ accumulated, (node.calculateAccumulatorCheckpoint chainActive store nHeight
        mapAccumulators).1 = some (block.nAccumulatorCheckpoint, accumulated)) ∨
    (¬(node.params.getChainHeight .h5 ≤ nHeight ∧ nHeight.tmod 10 = 0) ∧
      ∃ previous, chainActive.blockAt (nHeight - 1) = some previous ∧
        block.nAccumulatorCheckpoint = previous.nAccumulatorCheckpoint) := by
  unfold validateAccumulatorCheckpoint at passed
  rw [if_neg Bool.false_ne_true] at passed
  by_cases update : node.params.getChainHeight .h5 ≤ nHeight ∧ nHeight.tmod 10 = 0
  · refine Or.inl ⟨update.1, update.2, ?_⟩
    rw [if_pos update] at passed
    rcases outcome : node.calculateAccumulatorCheckpoint chainActive store nHeight
      mapAccumulators with ⟨_ | ⟨nCheckpoint, accumulated⟩, after⟩
    · rw [outcome] at passed
      dsimp only at passed
      rw [if_neg (by rw [never.lastGood]; omega)] at passed
      cases passed
    · rw [outcome] at passed
      dsimp only [Option.bind_some] at passed
      by_cases same : nCheckpoint = block.nAccumulatorCheckpoint
      · rw [same]
        exact ⟨accumulated, rfl⟩
      · rw [if_pos same] at passed
        cases passed
  · refine Or.inr ⟨update, ?_⟩
    rw [if_neg update] at passed
    cases parent : chainActive.blockAt (nHeight - 1) with
    | none =>
      rw [parent] at passed
      cases passed
    | some previous =>
      rw [parent] at passed
      dsimp only at passed
      by_cases same : block.nAccumulatorCheckpoint = previous.nAccumulatorCheckpoint
      · exact ⟨previous, rfl, same⟩
      · rw [if_pos same] at passed
        cases passed

end

end Calculation

/-- Each block above the genesis block passed `ValidateAccumulatorCheckpoint` when it was
connected, with the values that were stored then. -/
def CheckpointsValid (node : AccumulatorNode) (kit : AccumulatorKit Value) (values : Set Value)
    (chainActive : ActiveChain) : Prop :=
  ∀ nHeight block, 0 < nHeight → chainActive.blocks[nHeight]? = some block →
    ∃ (visited : AccumulatorNode) (store : AccumulatorStore kit)
        (mapAccumulators : CoinDenomination → Value),
      visited.params = node.params ∧
        visited.nBlockLastGoodCheckpoint = node.nBlockLastGoodCheckpoint ∧
        store.Within values ∧
        (visited.validateAccumulatorCheckpoint false (chainActive.upTo nHeight) store block
          nHeight mapAccumulators).1.isSome = true

section Chain

variable {values : Set Value} {store : AccumulatorStore kit}

/-- Every block of a valid chain has a checkpoint that counts the mints up to eleven blocks
below the last multiple of ten. -/
theorem represents_of_valid
    (never : node.NeverRecalculates)
    (collisionFree : kit.CollisionFree values)
    (known : ∀ count ≤ chainActive.blocks.length, ∀ denom ∈ zerocoinDenomList,
      chainActive.accumulatedBelow kit node.params count denom ∈ values)
    (genesis : ∀ block, chainActive.blocks[0]? = some block → block.nAccumulatorCheckpoint = 0)
    (short : (chainActive.blocks.length : Int) ≤ intMax)
    (valid : node.CheckpointsValid kit values chainActive)
    (nHeight : Nat) :
    ∀ block, chainActive.blocks[nHeight]? = some block →
      kit.Represents block.nAccumulatorCheckpoint
        (chainActive.accumulatedBelow kit node.params (nHeight / 10 * 10 - 10)) := by
  have nothing {count : Nat} (below : (count : Int) ≤ node.params.getChainHeight .h5)
      (denom : CoinDenomination) :
      chainActive.accumulatedBelow kit node.params count denom = kit.accumulatorBase :=
    ActiveChain.accumulatedBelow_start below denom
  induction nHeight with
  | zero =>
    intro block found
    exact Or.inl ⟨genesis block found, fun denom _ => rfl⟩
  | succ nHeight ih =>
    intro block found
    have inChain : nHeight + 1 < chainActive.blocks.length := (List.getElem?_eq_some_iff.mp found).1
    obtain ⟨visited, stored, mapAccumulators, params, lastGood, within, passed⟩ :=
      valid (nHeight + 1) block (Nat.succ_pos nHeight) found
    have neverVisited : visited.NeverRecalculates :=
      ⟨by rw [params]; exact never.recalculate, lastGood.trans never.lastGood⟩
    have here {count : Nat} (below : count ≤ nHeight + 1) :
        (chainActive.upTo (nHeight + 1)).accumulatedBelow kit node.params count =
          chainActive.accumulatedBelow kit node.params count := by
      funext denom
      exact ActiveChain.accumulatedBelow_upTo below denom
    have parentHeight : ((nHeight + 1 : Nat) : Int) - 1 = (nHeight : Nat) := by omega
    have parentFound (previous : CBlock)
        (parent : (chainActive.upTo (nHeight + 1)).blockAt (((nHeight + 1 : Nat) : Int) - 1) =
          some previous) : chainActive.blocks[nHeight]? = some previous := by
      rw [parentHeight, ActiveChain.blockAt_natCast] at parent
      unfold ActiveChain.upTo at parent
      rwa [List.getElem?_take_of_lt (Nat.lt_succ_self nHeight)] at parent
    rcases calculated_of_validate neverVisited (by omega) passed with
      ⟨active, multiple, accumulated, calculated⟩ | ⟨other, previous, parent, same⟩
    · -- an update block: the parent's checkpoint counts the mints twenty below
      have tens : (nHeight + 1) % 10 = 0 := by
        rw [Int.tmod_eq_emod_of_nonneg (by omega)] at multiple
        omega
      have cut : nHeight / 10 * 10 - 10 = (((nHeight + 1 : Nat) : Int) - 20).toNat := by
        omega
      have window : (nHeight + 1) / 10 * 10 - 10 = (((nHeight + 1 : Nat) : Int) - 10).toNat := by
        omega
      obtain ⟨previous, _, _, parent, -⟩ :=
        accumulateBlocks_of_calculate neverVisited active multiple (by omega) calculated
      have represents := ih previous (parentFound previous parent)
      rw [cut, ← here (by omega), ← params] at represents
      rw [window, ← here (by omega), ← params]
      refine (calculateAccumulatorCheckpoint_adds neverVisited collisionFree within
        (fun denom listed => ?_) active multiple (by omega) parent represents calculated).1
      rw [params, here (by omega)]
      exact known _ (by omega) denom listed
    · -- any other block repeats the checkpoint of its parent
      have represents := ih previous (parentFound previous parent)
      rw [same]
      by_cases tens : (nHeight + 1) % 10 = 0
      · have early : ((nHeight + 1 : Nat) : Int) < node.params.getChainHeight .h5 := by
          by_contra active
          apply other
          refine ⟨by rw [params]; omega, ?_⟩
          rw [Int.tmod_eq_emod_of_nonneg (by omega)]
          omega
        refine represents.congr fun denom _ => ?_
        rw [nothing (by omega), nothing (by omega)]
      · have cut : (nHeight + 1) / 10 * 10 - 10 = nHeight / 10 * 10 - 10 := by omega
        rw [cut]
        exact represents

/-- Accumulator checkpoints count every mint once: on a chain of valid checkpoints, the
accumulators computed for a height that is a multiple of ten are the initial value accumulated
with the coins minted from the start of zerocoin to eleven blocks below the height. -/
theorem calculateAccumulatorCheckpoint_counts
    (never : node.NeverRecalculates)
    (collisionFree : kit.CollisionFree values)
    (known : ∀ count ≤ chainActive.blocks.length, ∀ denom ∈ zerocoinDenomList,
      chainActive.accumulatedBelow kit node.params count denom ∈ values)
    (genesis : ∀ block, chainActive.blocks[0]? = some block → block.nAccumulatorCheckpoint = 0)
    (short : (chainActive.blocks.length : Int) ≤ intMax)
    (valid : node.CheckpointsValid kit values chainActive)
    (within : store.Within values)
    {nHeight : Int}
    (active : node.params.getChainHeight .h5 ≤ nHeight)
    (multiple : nHeight.tmod 10 = 0)
    (onChain : nHeight ≤ chainActive.blocks.length)
    {mapAccumulators accumulated : CoinDenomination → Value} {nCheckpoint : Uint256}
    (calculated : (node.calculateAccumulatorCheckpoint chainActive store nHeight
      mapAccumulators).1 = some (nCheckpoint, accumulated)) :
    ∀ denom ∈ zerocoinDenomList, accumulated denom =
      (chainActive.mintedBelow node.params denom (nHeight - 10).toNat).foldl kit.increment
        kit.accumulatorBase := by
  obtain ⟨previous, _, _, parent, -, deep, -⟩ :=
    accumulateBlocks_of_calculate never active multiple (by omega) calculated
  have tens : nHeight % 10 = 0 := by
    rwa [Int.tmod_eq_emod_of_nonneg (by omega)] at multiple
  have found : chainActive.blocks[(nHeight - 1).toNat]? = some previous := by
    rw [← ActiveChain.blockAt_natCast, Int.toNat_of_nonneg (by omega)]
    exact parent
  have represents := represents_of_valid never collisionFree known genesis short valid
    (nHeight - 1).toNat previous found
  have cut : (nHeight - 1).toNat / 10 * 10 - 10 = (nHeight - 20).toNat := by omega
  rw [cut] at represents
  exact (calculateAccumulatorCheckpoint_adds never collisionFree within
    (known _ (by omega)) active multiple (by omega) parent represents calculated).2

end Chain

section Example

/-- Accumulators modulo 15. -/
def kitModulo15 : AccumulatorKit (Fin 15) where
  accumulatorBase := 2
  increment bnValue coin := ⟨bnValue.val ^ coin.toNat % 15, Nat.mod_lt _ (by decide)⟩
  getChecksum bnValue := bnValue.val + 1
  getChecksum_lt bnValue := Nat.lt_of_le_of_lt bnValue.isLt (by decide)

/-- A network on which zerocoin starts at the height 11. -/
def nodeFromEleven : AccumulatorNode where
  params := { CChainParams.main with getChainHeight := fun _ => 11 }
  nBlockLastGoodCheckpoint := intMax
  fraud := ⟨fun _ => false, fun _ => false⟩
  shutdownRequested := fun _ => false
  readBlockFromDisk := fun _ => true

/-- A block of a transaction with the outputs. -/
def blockOfOutputs (vout : List CTxOut) : CBlock where
  hash := 0
  nVersion := 5
  hashPrevBlock := 0
  hashMerkleRoot := 0
  nTime := 0
  nBits := 0
  nNonce := 0
  nAccumulatorCheckpoint := 0
  vtx := [{ hash := 0, nVersion := 1, vin := [], vout := vout, nLockTime := 0 }]
  vchBlockSig := []

/-- Thirty blocks, of which the thirteenth mints a coin. -/
def chainWithMint : ActiveChain where
  blocks := List.replicate 12 (blockOfOutputs []) ++
    [blockOfOutputs [{ nValue := 50 * coin, scriptPubKey := [0xc1, 0, 0, 0, 0, 0, 3] }]] ++
    List.replicate 17 (blockOfOutputs [])
  unversioned := by decide

/-- A store without values. -/
def emptyStore {Value : Type} (kit : AccumulatorKit Value) : AccumulatorStore kit where
  zerocoinDB := fun _ => none
  mapAccumulatorValues := fun _ => none
  databased := fun _ _ nothing => nomatch nothing
  mapped := fun _ _ nothing => nomatch nothing

theorem emptyStore_within {Value : Type} (kit : AccumulatorKit Value) (values : Set Value) :
    (emptyStore kit).Within values where
  databased := fun _ _ nothing => nomatch nothing
  mapped := fun _ _ nothing => nomatch nothing

theorem calculateAccumulatorCheckpoint_counts_oneMint :
    ∃ nCheckpoint accumulated,
      (nodeFromEleven.calculateAccumulatorCheckpoint chainWithMint (emptyStore kitModulo15) 30
        kitModulo15.reset).1 = some (nCheckpoint, accumulated) ∧
      ∀ denom ∈ zerocoinDenomList, accumulated denom =
        (chainWithMint.mintedBelow nodeFromEleven.params denom 20).foldl kitModulo15.increment
          kitModulo15.accumulatorBase := by
  have computed : (nodeFromEleven.calculateAccumulatorCheckpoint chainWithMint
      (emptyStore kitModulo15) 30 kitModulo15.reset).1.isSome = true := by decide
  have passes : ∀ nHeight < 30, 0 < nHeight →
      (nodeFromEleven.validateAccumulatorCheckpoint false (chainWithMint.upTo nHeight)
        (emptyStore kitModulo15)
        ((chainWithMint.blocks[nHeight]?).getD (blockOfOutputs [])) nHeight
        kitModulo15.reset).1.isSome = true := by decide
  obtain ⟨⟨nCheckpoint, accumulated⟩, calculated⟩ := Option.isSome_iff_exists.mp computed
  refine ⟨nCheckpoint, accumulated, calculated, ?_⟩
  refine @calculateAccumulatorCheckpoint_counts _ kitModulo15 nodeFromEleven chainWithMint Set.univ
    (emptyStore kitModulo15) ⟨rfl, rfl⟩ ⟨?_, ?_⟩ (fun _ _ _ _ => Set.mem_univ _) ?_ (by decide) ?_
    (emptyStore_within _ _) 30 (by decide) (by decide) (by decide) _ _ _ calculated
  · intro first _ second _ same
    exact Fin.ext (Nat.succ.inj same)
  · intro bnValue _ zero
    cases zero
  · intro block found
    cases found
    rfl
  · intro nHeight block above found
    have inChain : nHeight < 30 := (List.getElem?_eq_some_iff.mp found).1
    have passed := passes nHeight inChain above
    rw [found, Option.getD_some] at passed
    exact ⟨nodeFromEleven, emptyStore kitModulo15, kitModulo15.reset, rfl, rfl,
      emptyStore_within _ _, passed⟩

end Example

end AccumulatorNode

end ColossusCoin
