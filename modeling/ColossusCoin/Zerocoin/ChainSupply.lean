import ColossusCoin.Library.System
import ColossusCoin.Validation.Disconnect
import ColossusCoin.Validation.FailedConnect

/-!
# The tracked supply along the active chain

`UpdateZPIVSupply` changes counts in index entries, which stay when their blocks are
disconnected.  The counts of the tip are those of the active chain as long as no entry
starts from counts that are not its parent's.
-/

namespace ColossusCoin

namespace CBlock

/-- The denominations of the mints in a block. -/
def mintedDenominations (block : CBlock) : List CoinDenomination :=
  block.vtx.flatMap fun tx =>
    tx.zerocoinMintOutputs.map fun txout => .ofAmount txout.nValue

/-- The denominations of the zerocoin spends in a block. -/
def spentDenominations (block : CBlock) : List CoinDenomination :=
  block.vtx.flatMap fun tx =>
    if tx.isZerocoinSpend then
      tx.zerocoinSpendInputs.map fun txin => .ofInt txin.nSequence
    else []

/-- What a block adds to the zerocoins of a denomination. -/
def netSupply (block : CBlock) (denomination : CoinDenomination) : Int :=
  block.mintedDenominations.count denomination - block.spentDenominations.count denomination

end CBlock

/-- An accepted block leaves its entry with the counts that it started from, its listed
mints more and its listed spends less. -/
theorem mapZerocoinSupply_of_accept
    (accepted : (connectBlock env block false fAlreadyChecked world).1 = .accept)
    (notGenesis : block.hash ≠ env.context.params.hashGenesisBlock)
    (parent : env.pprev = some prev) :
    ∃ spends,
      listedSpends env.context.params env.context.lib env.fraud block world.pindex = some spends ∧
        ∀ denomination,
          (connectBlock env block false fAlreadyChecked world).2.pindex.mapZerocoinSupply
              denomination =
            (world.pindex.inheritSupply (some prev)).mapZerocoinSupply denomination +
                (listedMints env.context.params env.fraud block world.pindex).count denomination -
              spends.count denomination := by
  obtain ⟨checked, connected, rewarded, passed⟩ :=
    connectBlock_accept (Prod.ext accepted rfl) notGenesis
  obtain ⟨supplied, rewards⟩ := rewardsAccepted passed.rewards
  have supply := rewards.supply
  rw [parent, (pindex_of_connectAccepted passed).1] at supply
  obtain ⟨spends, listed, counts⟩ := updateZPIVSupply_of_accept supply
  have kept := frame_connectWrites env rewarded
  rw [passed.writes rfl] at kept
  simp only [Prod.mk.injEq] at kept
  refine ⟨spends, listed, fun denomination => ?_⟩
  rw [← counts denomination]
  exact (congrFun kept.2.2.2.2 denomination).trans
    (congrArg (fun entry => entry.mapZerocoinSupply denomination) rewards.pindex)

/-! ## Runs of connects and disconnects -/

/-- What the tracking depends on besides blocks: parameters, the zerocoin library, the
banned outpoints and serials, and the version of the genesis block. -/
structure SupplyNetwork where
  context : ChainContext
  fraud : FraudMaps
  genesisVersion : Int

/-- The blocks of the active chain above the genesis block, the tip first, and the counts
in the index entry of each hash, which outlive a disconnect. -/
structure SupplyState where
  chain : List CBlock
  mapZerocoinSupply : Uint256 → CoinDenomination → Int

/-- Steps of a node.  A call of `ConnectBlock` is given with the rest of the entries of the
block, in `world`, of its parent and of the ancestors above that one. -/
inductive SupplyAction where
  | connectBlock (env : ConnectEnv) (block : CBlock) (fAlreadyChecked : Bool)
      (world : ConnectWorld) (parent : CBlockIndex) (ancestors : List CBlockIndex)
  | disconnectTip

section Runs

variable (network : SupplyNetwork)

namespace SupplyState

/-- A node with the genesis block alone; index entries start with zero counts. -/
def genesis : SupplyState where
  chain := []
  mapZerocoinSupply := fun _ _ => 0

/-- The hash of the tip. -/
def tipHash (state : SupplyState) : Uint256 :=
  state.chain.head?.elim network.context.params.hashGenesisBlock fun tip => tip.hash

/-- The version of the tip. -/
def tipVersion (state : SupplyState) : Int :=
  state.chain.head?.elim network.genesisVersion fun tip => tip.nVersion

/-- The hashes of the active chain. -/
def activeHashes (state : SupplyState) : List Uint256 :=
  (state.chain.map fun block => block.hash) ++ [network.context.params.hashGenesisBlock]

/-- The environment of a call for a child of the tip. -/
def connectEnv (state : SupplyState) (env : ConnectEnv) (parent : CBlockIndex)
    (ancestors : List CBlockIndex) : ConnectEnv :=
  { env with
    context := network.context
    fraud := network.fraud
    ancestors :=
      { parent with
        hash := state.tipHash network
        nVersion := state.tipVersion network
        mapZerocoinSupply := state.mapZerocoinSupply (state.tipHash network) } ::
        ancestors }

/-- The records that such a call is given. -/
def connectWorld (state : SupplyState) (block : CBlock) (world : ConnectWorld) :
    ConnectWorld :=
  { world with
    pindex :=
      { world.pindex with
        hash := block.hash
        nHeight := state.chain.length + 1
        mapZerocoinSupply := state.mapZerocoinSupply block.hash } }

/-- One step.  A block of the active chain is not connected again, and the counts of a
block that fails stay as the call leaves them. -/
def apply (state : SupplyState) : SupplyAction → SupplyState
  | .connectBlock env block fAlreadyChecked world parent ancestors =>
    if block.hash ∈ state.activeHashes network then state
    else
      match ColossusCoin.connectBlock (state.connectEnv network env parent ancestors) block
          false fAlreadyChecked (state.connectWorld block world) with
      | (exit, connected) =>
        { chain := if exit = .accept then block :: state.chain else state.chain
          mapZerocoinSupply :=
            Function.update state.mapZerocoinSupply block.hash
              connected.pindex.mapZerocoinSupply }
  | .disconnectTip => { state with chain := state.chain.tail }

/-- The counts of the tip are those of the active chain. -/
def TipCounted (state : SupplyState) : Prop :=
  ∀ denomination ∈ CoinDenomination.zerocoinDenomList,
    state.mapZerocoinSupply (state.tipHash network) denomination =
      (state.chain.map fun block => block.netSupply denomination).sum

/-- The counts of every block of the active chain are those up to it. -/
def AllCounted (state : SupplyState) : Prop :=
  ∀ below, below <:+ state.chain → { state with chain := below }.TipCounted network

/-- What the tracking lists of a block at a height. -/
def listedSupply (block : CBlock) (nHeight : Int) (denomination : CoinDenomination) : Int :=
  let pindex := CBlockIndex.ofBlock block nHeight
  (listedMints network.context.params network.fraud block pindex).count denomination -
    ((listedSpends network.context.params network.context.lib network.fraud block
      pindex).getD []).count denomination

/-- The counts that a block on the tip adds to are right: the entry takes them from its
parent, or has the same ones itself, and the block is listed in full.  (Over a parent of
version four or less, a wrong start may make up for what is not listed.) -/
def CountsOn (state : SupplyState) (block : CBlock) : Prop :=
  ∀ denomination ∈ CoinDenomination.zerocoinDenomList,
    let listed := listedSupply network block (state.chain.length + 1) denomination
    if CBlockHeader.version4 < state.tipVersion network then
      listed = block.netSupply denomination
    else
      state.mapZerocoinSupply block.hash denomination + listed =
        state.mapZerocoinSupply (state.tipHash network) denomination +
          block.netSupply denomination

/-- What a step must meet for the counts of the tip to stay right. -/
def CountsAfter (state : SupplyState) : SupplyAction → Prop
  | .connectBlock env block fAlreadyChecked world parent ancestors =>
    block.hash ∉ state.activeHashes network →
      (ColossusCoin.connectBlock (state.connectEnv network env parent ancestors) block false
          fAlreadyChecked (state.connectWorld block world)).1 = .accept →
        state.CountsOn network block
  | .disconnectTip => True

variable {network}

theorem allCounted_genesis : genesis.AllCounted network := by
  intro below suffix denomination _
  obtain rfl := List.suffix_nil.mp suffix
  rfl

variable {state : SupplyState}

theorem AllCounted.tipCounted
    (counted : state.AllCounted network) :
    state.TipCounted network :=
  counted state.chain (List.suffix_refl _)

theorem tipHash_mem
    (state : SupplyState) (suffix : below <:+ state.chain) :
    { state with chain := below }.tipHash network ∈ state.activeHashes network := by
  cases below with
  | nil => exact List.mem_append_right _ (List.mem_singleton_self _)
  | cons tip rest =>
    exact List.mem_append_left _ (List.mem_map_of_mem (suffix.subset List.mem_cons_self))

/-- Changing the entry of another block keeps the counts of the active chain. -/
theorem AllCounted.update
    {hash : Uint256}
    (counted : state.AllCounted network)
    (elsewhere : hash ∉ state.activeHashes network) :
    { state with
      mapZerocoinSupply :=
        Function.update state.mapZerocoinSupply hash supply }.AllCounted network := by
  intro below suffix denomination member
  have other : { state with chain := below }.tipHash network ≠ hash := by
    rintro rfl
    exact elsewhere (tipHash_mem state suffix)
  rw [← counted below suffix denomination member]
  exact congrFun (Function.update_of_ne other supply state.mapZerocoinSupply) denomination

/-- A connected block keeps the counts of the active chain if it makes those of the tip
right. -/
theorem AllCounted.connected
    {block : CBlock}
    (counted : state.AllCounted network)
    (elsewhere : block.hash ∉ state.activeHashes network)
    (tip : { chain := block :: state.chain
             mapZerocoinSupply :=
               Function.update state.mapZerocoinSupply block.hash
                 supply : SupplyState }.TipCounted network) :
    { chain := block :: state.chain
      mapZerocoinSupply :=
        Function.update state.mapZerocoinSupply block.hash
          supply : SupplyState }.AllCounted network := by
  intro below suffix
  rcases List.suffix_cons_iff.mp suffix with rfl | older
  · exact tip
  · exact counted.update elsewhere below older

/-- An accepted block adds what is listed of it to the counts that its entry starts from. -/
theorem supply_of_connect
    (notGenesis : block.hash ≠ network.context.params.hashGenesisBlock)
    (accepted : (ColossusCoin.connectBlock (state.connectEnv network env parent ancestors)
      block false fAlreadyChecked (state.connectWorld block world)).1 = .accept)
    (denomination : CoinDenomination) :
    (ColossusCoin.connectBlock (state.connectEnv network env parent ancestors) block false
        fAlreadyChecked (state.connectWorld block world)).2.pindex.mapZerocoinSupply denomination =
      (if CBlockHeader.version4 < state.tipVersion network then
          state.mapZerocoinSupply (state.tipHash network) denomination
        else state.mapZerocoinSupply block.hash denomination) +
      listedSupply network block (state.chain.length + 1) denomination := by
  obtain ⟨spends, listed, counts⟩ := mapZerocoinSupply_of_accept accepted notGenesis rfl
  have start : ((state.connectWorld block world).pindex.inheritSupply
        (state.connectEnv network env parent ancestors).pprev).mapZerocoinSupply denomination =
      if CBlockHeader.version4 < state.tipVersion network then
        state.mapZerocoinSupply (state.tipHash network) denomination
      else state.mapZerocoinSupply block.hash denomination := by
    unfold CBlockIndex.inheritSupply connectEnv ConnectEnv.pprev
    dsimp only [List.head?_cons]
    split_ifs <;> rfl
  have supply : listedSupply network block (state.chain.length + 1) denomination =
      (listedMints network.context.params network.fraud block
          (state.connectWorld block world).pindex).count denomination -
        spends.count denomination := by
    have same : listedSpends network.context.params network.context.lib network.fraud block
        (CBlockIndex.ofBlock block (state.chain.length + 1)) = some spends := listed
    unfold listedSupply
    dsimp only
    rw [same]
    rfl
  rw [counts denomination, ← start, supply]
  exact Int.add_sub_assoc _ _ _

/-- The counts of a connected block are right exactly when it adds to the right ones. -/
theorem tipCounted_connect_iff
    (counted : state.AllCounted network)
    (elsewhere : block.hash ∉ state.activeHashes network)
    (accepted : (ColossusCoin.connectBlock (state.connectEnv network env parent ancestors)
      block false fAlreadyChecked (state.connectWorld block world)).1 = .accept) :
    (state.apply network (.connectBlock env block fAlreadyChecked world parent
        ancestors)).TipCounted network ↔
      state.CountsOn network block := by
  have notGenesis : block.hash ≠ network.context.params.hashGenesisBlock := by
    intro same
    exact elsewhere (List.mem_append_right _ (List.mem_singleton.mpr same))
  unfold apply
  dsimp only
  rw [if_neg elsewhere, if_pos accepted]
  refine forall₂_congr fun denomination member => ?_
  have now := counted.tipCounted denomination member
  have added := supply_of_connect notGenesis accepted denomination
  change Function.update state.mapZerocoinSupply block.hash _ block.hash denomination = _ ↔ _
  rw [Function.update_self, added, List.map_cons, List.sum_cons, ← now]
  split_ifs
  · constructor
    · intro equal
      omega
    · intro equal
      omega
  · constructor
    · intro equal
      omega
    · intro equal
      omega

/-- The counts of the tip after a step are right exactly when the step adds to the right
ones. -/
theorem tipCounted_apply_iff
    (state : SupplyState) (action : SupplyAction)
    (counted : state.AllCounted network) :
    (state.apply network action).TipCounted network ↔ state.CountsAfter network action := by
  cases action with
  | connectBlock env block fAlreadyChecked world parent ancestors =>
    by_cases elsewhere : block.hash ∈ state.activeHashes network
    · refine iff_of_true ?_ fun absent => (absent elsewhere).elim
      unfold apply
      dsimp only
      rw [if_pos elsewhere]
      exact counted.tipCounted
    · by_cases accepted : (ColossusCoin.connectBlock
          (state.connectEnv network env parent ancestors) block false fAlreadyChecked
          (state.connectWorld block world)).1 = .accept
      · rw [tipCounted_connect_iff counted elsewhere accepted]
        exact ⟨fun counts _ _ => counts, fun counts => counts elsewhere accepted⟩
      · refine iff_of_true ?_ fun _ accepts => (accepted accepts).elim
        unfold apply
        dsimp only
        rw [if_neg elsewhere, if_neg accepted]
        exact (counted.update elsewhere).tipCounted
  | disconnectTip =>
    exact iff_of_true (counted _ (List.tail_suffix _)) trivial

theorem allCounted_apply
    (state : SupplyState) (action : SupplyAction)
    (counted : state.AllCounted network)
    (tip : (state.apply network action).TipCounted network) :
    (state.apply network action).AllCounted network := by
  cases action with
  | connectBlock env block fAlreadyChecked world parent ancestors =>
    unfold apply at tip ⊢
    dsimp only at tip ⊢
    split_ifs at tip ⊢ with active accepted
    · exact counted
    · exact counted.connected active tip
    · exact counted.update active
  | disconnectTip =>
    intro below suffix
    exact counted below (suffix.trans (List.tail_suffix _))

end SupplyState

/-- In every run from the genesis block, the counts of the tip are those of the active
chain in every state exactly when every block that `ConnectBlock` accepts adds to the right
counts. -/
theorem zerocoinSupply_followsChain_iff
    (network : SupplyNetwork) (trace : List SupplyAction) :
    (∀ past, past <+: trace →
        (past.foldl (SupplyState.apply network) .genesis).TipCounted network) ↔
      ∀ past action, past ++ [action] <+: trace →
        (past.foldl (SupplyState.apply network) .genesis).CountsAfter network action :=
  foldl_holds_iff SupplyState.allCounted_genesis (fun _ counted => counted.tipCounted)
    SupplyState.tipCounted_apply_iff SupplyState.allCounted_apply trace

end Runs

/-- The main network, whose genesis block has version one. -/
def mainSupply : SupplyNetwork where
  context := bareContext
  fraud := bareEnv.fraud
  genesisVersion := 1

/-- The block with one mint of the smallest denomination is connected over the genesis
block. -/
def connectMint : SupplyAction :=
  .connectBlock { bareEnv with verifyScript := fun _ _ _ _ => none } mintingBlock true
    { twoOutputsWorld mintingBlock with
      view :=
        .overSingle 3
          { fCoinBase := false
            fCoinStake := false
            vout := [{ nValue := 50 * coin, scriptPubKey := [0x51] }]
            nHeight := 0
            nVersion := 1 } CChainParams.main.hashGenesisBlock }
    (CBlockIndex.ofBlock (bareBlock 1) 0) []

/-- Connected, disconnected and connected again, its mint counts twice. -/
theorem zerocoinSupply_counts_twice :
    let node := [connectMint, .disconnectTip, connectMint].foldl
      (SupplyState.apply mainSupply) .genesis
    (node.chain.map fun block => block.netSupply .zqOne) = [1] ∧
      node.mapZerocoinSupply (node.tipHash mainSupply) .zqOne = 2 ∧
      ¬ node.TipCounted mainSupply := by
  intro node
  have net : (node.chain.map fun block => block.netSupply .zqOne) = [1] := by decide
  have twice : node.mapZerocoinSupply (node.tipHash mainSupply) .zqOne = 2 := by decide
  refine ⟨net, twice, fun counted => ?_⟩
  have equal := counted .zqOne (by decide)
  rw [net, twice] at equal
  exact absurd equal (by decide)

end ColossusCoin
