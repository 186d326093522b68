import ColossusCoin.Chain.StakeKernel
import ColossusCoin.Library.GreedyFill

/-!
# The next stake modifier

A chain is listed from `pindexPrev` down to the genesis block.  The modifier is kept for an
interval; then its bits are taken anew from blocks of the last selection interval, one a
round.  Blocks are looked up again by their hashes, in the block index of the node.  The
logging is left out.
-/

namespace ColossusCoin

open SelectionRounds

/-- The fields of `CBlockIndex` that the stake modifier is computed from. -/
structure ModifierIndex where
  hash : Uint256
  nHeight : Nat
  nTime : Nat
  isProofOfStake : Bool
  nStakeModifier : Nat
  /-- `GeneratedStakeModifier`. -/
  generatedStakeModifier : Bool
  deriving DecidableEq, Repr

/-- A chain, with its last block first. -/
structure ModifierChain where
  blocks : List ModifierIndex
  heights : blocks.map ModifierIndex.nHeight = (List.range blocks.length).reverse
  distinct : (blocks.map ModifierIndex.hash).Nodup

/-- What the computation reads beside the chain: the block index of the node, and the address
at which the process holds the literal `"stakemodifier"`, which differs between builds and
between runs. -/
structure ModifierNode where
  mapBlockIndex : Uint256 → Option ModifierIndex
  stakemodifier : Fin (2 ^ 64)

/-- The block index of the node has the blocks of the chain. -/
def ModifierNode.Indexes (node : ModifierNode) (blocks : List ModifierIndex) : Prop :=
  ∀ pindex ∈ blocks, node.mapBlockIndex pindex.hash = some pindex

/-- `ModifierUpgradeBlock`, the same on all networks. -/
def modifierUpgradeBlock : Nat := 0

/-- `GetLastStakeModifier`: the last modifier generated and the time of its block. -/
def getLastStakeModifier : List ModifierIndex → Option (Nat × Nat)
  | [] => none
  | pindex :: pprev =>
    if pindex.generatedStakeModifier then some (pindex.nStakeModifier, pindex.nTime)
    else getLastStakeModifier pprev

def ModifierIndex.getStakeEntropyBit (pindex : ModifierIndex) : Nat :=
  pindex.hash % 2 ^ 64 % 2

section Selection

-- `Hash` of a hash and a modifier.
variable (hashOf : Uint256 → Nat → Uint256)
variable (node : ModifierNode)
variable (nStakeModifierPrev : Nat)

/-- `hashSelection` of a candidate. -/
def selectionHash (fModifierV2 : Bool) (pindex : ModifierIndex) : Uint256 :=
  let hashProof :=
    if fModifierV2 then pindex.hash
    else if pindex.isProofOfStake then 0 else pindex.hash
  let hashSelection := hashOf hashProof nStakeModifierPrev
  if pindex.isProofOfStake then hashSelection >>> 32 else hashSelection

/-- The better of what is selected so far and a candidate. -/
def betterCandidate (best : Option (Uint256 × ModifierIndex)) (hashSelection : Uint256)
    (pindex : ModifierIndex) : Option (Uint256 × ModifierIndex) :=
  match best with
  | some (hashBest, pindexSelected) =>
    if hashSelection < hashBest then some (hashSelection, pindex)
    else some (hashBest, pindexSelected)
  | none => some (hashSelection, pindex)

/-- The loop of `SelectBlockFromCandidates`, with `hashBest` and `pindexSelected` where
`fSelected` is set: `none` for the error that a candidate is not indexed. -/
def selectLoop (mapSelectedBlocks : List ModifierIndex) (nSelectionIntervalStop : Int) :
    (fFirstRun fModifierV2 : Bool) → (best : Option (Uint256 × ModifierIndex)) →
      List (Nat × Uint256) → Option (Option (Uint256 × ModifierIndex))
  | _, _, best, [] => some best
  | fFirstRun, fModifierV2, best, item :: rest =>
    match node.mapBlockIndex item.2 with
    | none => none
    | some pindex =>
      if best.isSome ∧ nSelectionIntervalStop < pindex.nTime then some best
      else
        let fModifierV2 :=
          if fFirstRun then decide (modifierUpgradeBlock ≤ pindex.nHeight)
          else fModifierV2
        if pindex.hash ∈ mapSelectedBlocks.map ModifierIndex.hash then
          selectLoop mapSelectedBlocks nSelectionIntervalStop false fModifierV2 best rest
        else
          let hashSelection := selectionHash hashOf nStakeModifierPrev fModifierV2 pindex
          selectLoop mapSelectedBlocks nSelectionIntervalStop false fModifierV2
            (betterCandidate best hashSelection pindex) rest

/-- `SelectBlockFromCandidates`: `none` where it returns `false`. -/
def selectBlockFromCandidates (vSortedByTimestamp : List (Nat × Uint256))
    (mapSelectedBlocks : List ModifierIndex) (nSelectionIntervalStop : Int) :
    Option ModifierIndex :=
  match selectLoop hashOf node nStakeModifierPrev mapSelectedBlocks nSelectionIntervalStop true
      false none vSortedByTimestamp with
  | some (some (_, pindexSelected)) => some pindexSelected
  | _ => none

/-- What the rounds of `ComputeNextStakeModifier` change. -/
structure SelectionState where
  nSelectionIntervalStop : Int
  nStakeModifierNew : Nat
  mapSelectedBlocks : List ModifierIndex

/-- A round of `ComputeNextStakeModifier`. -/
def selectionRound (vSortedByTimestamp : List (Nat × Uint256)) (state : SelectionState)
    (nRound : Nat) : Option SelectionState :=
  let nSelectionIntervalStop :=
    state.nSelectionIntervalStop + getStakeModifierSelectionIntervalSection nRound
  match selectBlockFromCandidates hashOf node nStakeModifierPrev vSortedByTimestamp
      state.mapSelectedBlocks nSelectionIntervalStop with
  | none => none
  | some pindex =>
    some
      { nSelectionIntervalStop
        nStakeModifierNew := state.nStakeModifierNew ||| pindex.getStakeEntropyBit <<< nRound
        mapSelectedBlocks := pindex :: state.mapSelectedBlocks }

/-- All the rounds: `none` where one of them selects no block. -/
def selectionRounds (vSortedByTimestamp : List (Nat × Uint256))
    (nSelectionIntervalStart : Int) : Option SelectionState :=
  (List.range (min 64 vSortedByTimestamp.length)).foldlM
    (selectionRound hashOf node nStakeModifierPrev vSortedByTimestamp)
    { nSelectionIntervalStop := nSelectionIntervalStart
      nStakeModifierNew := 0
      mapSelectedBlocks := [] }

end Selection

/-- `nSelectionIntervalStart`, which may lie before the epoch. -/
def nSelectionIntervalStart (pindexPrev : ModifierIndex) : Int :=
  (pindexPrev.nTime / nModifierInterval * nModifierInterval : Nat) -
    (getStakeModifierSelectionInterval : Nat)

/-- The candidates of a selection: the chain down to the first block before the interval. -/
def candidateBlocks (pindexPrev : ModifierIndex) (pprev : List ModifierIndex) :
    List ModifierIndex :=
  (pindexPrev :: pprev).takeWhile fun pindex =>
    nSelectionIntervalStart pindexPrev ≤ pindex.nTime

/-- `operator<` of a pair of a time and a hash, or equality. -/
def candidateLe (first second : Nat × Uint256) : Bool :=
  first.1 < second.1 || (first.1 == second.1 && Nat.ble first.2 second.2)

/-- `vSortedByTimestamp`. -/
def sortedByTimestamp (candidates : List ModifierIndex) : List (Nat × Uint256) :=
  (candidates.map fun pindex => (pindex.nTime, pindex.hash)).reverse.mergeSort candidateLe

/-- `ComputeNextStakeModifier`: the verdict, `nStakeModifier` and `fGeneratedStakeModifier`. -/
def ModifierNode.computeNextStakeModifier (hashOf : Uint256 → Nat → Uint256)
    (node : ModifierNode) : (pindexPrev : List ModifierIndex) → Bool × Nat × Bool
  | [] => (true, 0, true)
  | pindexPrev :: pprev =>
    if pindexPrev.nHeight = 0 then (true, node.stakemodifier, true)
    else
      match getLastStakeModifier (pindexPrev :: pprev) with
      | none => (false, 0, false)
      | some (nStakeModifier, nModifierTime) =>
        if pindexPrev.nTime / nModifierInterval ≤ nModifierTime / nModifierInterval then
          (true, nStakeModifier, false)
        else
          match selectionRounds hashOf node nStakeModifier
              (sortedByTimestamp (candidateBlocks pindexPrev pprev))
              (nSelectionIntervalStart pindexPrev) with
          | none => (false, nStakeModifier, false)
          | some state => (true, state.nStakeModifierNew, true)

section Rounds

variable {hashOf : Uint256 → Nat → Uint256}
variable {node : ModifierNode}
variable {nStakeModifierPrev : Nat}
variable {blocks : List ModifierIndex}

/-- Every item stands for a block of the list. -/
def StandFor (items : List (Nat × Uint256)) (blocks : List ModifierIndex) : Prop :=
  ∀ item ∈ items, ∃ pindex ∈ blocks, item.2 = pindex.hash

theorem betterCandidate_eq
    (best : Option (Uint256 × ModifierIndex))
    (hashSelection : Uint256)
    (pindex : ModifierIndex) :
    betterCandidate best hashSelection pindex = some (hashSelection, pindex) ∨
      (betterCandidate best hashSelection pindex = best ∧ best.isSome) := by
  rcases best with _ | ⟨hashBest, pindexSelected⟩
  · exact Or.inl rfl
  · unfold betterCandidate
    dsimp only
    split_ifs
    · exact Or.inl rfl
    · exact Or.inr ⟨rfl, rfl⟩

/-- Once a block is selected, or an item is left that is not, the loop selects one that was
not selected before. -/
theorem selectLoop_selects
    (indexes : node.Indexes blocks)
    {mapSelectedBlocks : List ModifierIndex}
    (nSelectionIntervalStop : Int)
    {items : List (Nat × Uint256)}
    (standFor : StandFor items blocks)
    (fFirstRun fModifierV2 : Bool)
    {best : Option (Uint256 × ModifierIndex)}
    (fresh : ∀ hashBest pindex, best = some (hashBest, pindex) →
      pindex ∈ blocks ∧ pindex.hash ∉ mapSelectedBlocks.map ModifierIndex.hash)
    (selectable : best.isSome ∨
      ∃ item ∈ items, item.2 ∉ mapSelectedBlocks.map ModifierIndex.hash) :
    ∃ hashBest pindex,
      selectLoop hashOf node nStakeModifierPrev mapSelectedBlocks nSelectionIntervalStop
        fFirstRun fModifierV2 best items = some (some (hashBest, pindex)) ∧
      pindex ∈ blocks ∧ pindex.hash ∉ mapSelectedBlocks.map ModifierIndex.hash := by
  induction items generalizing fFirstRun fModifierV2 best with
  | nil =>
    rcases selectable with found | ⟨_, absurd_mem, _⟩
    · obtain ⟨⟨hashBest, pindex⟩, rfl⟩ := Option.isSome_iff_exists.mp found
      exact ⟨hashBest, pindex, rfl, fresh _ _ rfl⟩
    · cases absurd_mem
  | cons item rest ih =>
    obtain ⟨pindex, present, hash_eq⟩ := standFor item (List.mem_cons_self ..)
    have standFor_rest : StandFor rest blocks :=
      fun other_item later => standFor other_item (List.mem_cons_of_mem _ later)
    have lookup : node.mapBlockIndex item.2 = some pindex := by
      rw [hash_eq]
      exact indexes pindex present
    unfold selectLoop
    simp only [lookup]
    by_cases stop : best.isSome ∧ nSelectionIntervalStop < pindex.nTime
    · obtain ⟨⟨hashBest, selected⟩, rfl⟩ := Option.isSome_iff_exists.mp stop.1
      rw [if_pos stop]
      exact ⟨hashBest, selected, rfl, fresh _ _ rfl⟩
    · rw [if_neg stop]
      by_cases already : pindex.hash ∈ mapSelectedBlocks.map ModifierIndex.hash
      · rw [if_pos already]
        refine ih standFor_rest _ _ fresh ?_
        rcases selectable with found | ⟨unselected, among, fresh_item⟩
        · exact Or.inl found
        · rcases List.mem_cons.mp among with rfl | later
          · rw [hash_eq] at fresh_item
            exact absurd already fresh_item
          · exact Or.inr ⟨unselected, later, fresh_item⟩
      · rw [if_neg already]
        rcases betterCandidate_eq best _ pindex with replaced | ⟨kept, found⟩
        · rw [replaced]
          refine ih standFor_rest _ _ ?_ (Or.inl rfl)
          intro hashBest selected better
          injection better with better
          have same : pindex = selected := congrArg Prod.snd better
          rw [← same]
          exact ⟨present, already⟩
        · rw [kept]
          exact ih standFor_rest _ _ fresh (Or.inl found)

theorem selectLoop_congr
    (indexes : node.Indexes blocks)
    (other_indexes : other.Indexes blocks)
    (mapSelectedBlocks : List ModifierIndex)
    (nSelectionIntervalStop : Int)
    (standFor : StandFor items blocks)
    (fFirstRun fModifierV2 : Bool)
    (best : Option (Uint256 × ModifierIndex)) :
    selectLoop hashOf node nStakeModifierPrev mapSelectedBlocks nSelectionIntervalStop
        fFirstRun fModifierV2 best items =
      selectLoop hashOf other nStakeModifierPrev mapSelectedBlocks nSelectionIntervalStop
        fFirstRun fModifierV2 best items := by
  induction items generalizing fFirstRun fModifierV2 best with
  | nil => rfl
  | cons item rest ih =>
    obtain ⟨pindex, present, hash_eq⟩ := standFor item (List.mem_cons_self ..)
    have standFor_rest : StandFor rest blocks :=
      fun other_item later => standFor other_item (List.mem_cons_of_mem _ later)
    unfold selectLoop
    rw [hash_eq, indexes pindex present, other_indexes pindex present]
    simp only [ih standFor_rest]

theorem candidateBlocks_subset (pindexPrev : ModifierIndex) (pprev : List ModifierIndex) :
    candidateBlocks pindexPrev pprev ⊆ pindexPrev :: pprev :=
  (List.takeWhile_sublist _).subset

theorem sortedByTimestamp_hashes (candidates : List ModifierIndex) :
    ((sortedByTimestamp candidates).map Prod.snd).Perm (candidates.map ModifierIndex.hash) := by
  have sorted := (List.mergeSort_perm
    (candidates.map fun pindex => (pindex.nTime, pindex.hash)).reverse candidateLe).trans
      (List.reverse_perm _)
  have hashes := sorted.map Prod.snd
  rw [List.map_map] at hashes
  exact hashes

theorem length_sortedByTimestamp (candidates : List ModifierIndex) :
    (sortedByTimestamp candidates).length = candidates.length := by
  have same := (sortedByTimestamp_hashes candidates).length_eq
  rwa [List.length_map, List.length_map] at same

theorem standFor_sortedByTimestamp (candidates : List ModifierIndex) :
    StandFor (sortedByTimestamp candidates) candidates := by
  intro item present
  have among := (sortedByTimestamp_hashes candidates).subset (List.mem_map_of_mem present)
  obtain ⟨pindex, candidate, hash_eq⟩ := List.mem_map.mp among
  exact ⟨pindex, candidate, hash_eq.symm⟩

section

variable (indexes : node.Indexes blocks)
include indexes

theorem draws_selectionRound
    (distinct : (blocks.map ModifierIndex.hash).Nodup) :
    Draws (blocks.map ModifierIndex.hash)
      (fun state : SelectionState => state.mapSelectedBlocks.map ModifierIndex.hash)
      (selectionRound hashOf node nStakeModifierPrev (sortedByTimestamp blocks)) := by
  intro state nRound _ _ fewer
  obtain ⟨hash, candidate, fresh⟩ := exists_unselected distinct fewer
  obtain ⟨item, present, rfl⟩ :=
    List.mem_map.mp ((sortedByTimestamp_hashes blocks).symm.subset candidate)
  obtain ⟨hashBest, pindex, selected, among, unselected⟩ :=
    @selectLoop_selects hashOf node nStakeModifierPrev blocks indexes state.mapSelectedBlocks
      (state.nSelectionIntervalStop + getStakeModifierSelectionIntervalSection nRound) _
      (standFor_sortedByTimestamp blocks) true false none
      (fun _ _ nothing => by cases nothing) (Or.inr ⟨item, present, fresh⟩)
  unfold selectionRound selectBlockFromCandidates
  simp only [selected]
  exact ⟨_, pindex.hash, rfl, List.mem_map_of_mem among, unselected, rfl⟩

theorem selectionRounds_selects
    (distinct : (blocks.map ModifierIndex.hash).Nodup)
    (nSelectionIntervalStart : Int) :
    ∃ state,
      selectionRounds hashOf node nStakeModifierPrev (sortedByTimestamp blocks)
        nSelectionIntervalStart = some state ∧
      state.mapSelectedBlocks.length = min 64 blocks.length ∧
      (state.mapSelectedBlocks.map ModifierIndex.hash).Nodup ∧
      state.mapSelectedBlocks.map ModifierIndex.hash ⊆ blocks.map ModifierIndex.hash := by
  let start : SelectionState :=
    { nSelectionIntervalStop := nSelectionIntervalStart
      nStakeModifierNew := 0
      mapSelectedBlocks := [] }
  have draws := @draws_selectionRound hashOf node nStakeModifierPrev blocks indexes distinct
  have room : (start.mapSelectedBlocks.map ModifierIndex.hash).length +
      (List.range (min 64 (sortedByTimestamp blocks).length)).length ≤
      (blocks.map ModifierIndex.hash).length := by
    rw [List.length_range, List.length_map, List.length_map, length_sortedByTimestamp]
    exact Nat.le_trans (Nat.le_of_eq (Nat.zero_add _)) (Nat.min_le_right ..)
  obtain ⟨state, run, length_eq, nodup, among⟩ :=
    draws.foldlM
      (List.range (min 64 (sortedByTimestamp blocks).length))
      (show (start.mapSelectedBlocks.map ModifierIndex.hash).Nodup from List.nodup_nil)
      (List.nil_subset _) room
  refine ⟨state, run, ?_, nodup, among⟩
  rw [List.length_map, List.length_range, length_sortedByTimestamp] at length_eq
  rw [length_eq]
  exact Nat.zero_add _

/-- Two nodes that index the candidates go through the rounds alike. -/
theorem selectionRounds_congr
    (other_indexes : other.Indexes blocks)
    (nSelectionIntervalStart : Int) :
    selectionRounds hashOf node nStakeModifierPrev (sortedByTimestamp blocks)
        nSelectionIntervalStart =
      selectionRounds hashOf other nStakeModifierPrev (sortedByTimestamp blocks)
        nSelectionIntervalStart := by
  have same : selectionRound hashOf node nStakeModifierPrev (sortedByTimestamp blocks) =
      selectionRound hashOf other nStakeModifierPrev (sortedByTimestamp blocks) := by
    funext state nRound
    unfold selectionRound selectBlockFromCandidates
    dsimp only
    rw [selectLoop_congr indexes other_indexes _ _ (standFor_sortedByTimestamp blocks)]
  unfold selectionRounds
  rw [same]

end

end Rounds

theorem ModifierNode.Indexes.candidates
    {node : ModifierNode}
    (indexes : node.Indexes (pindexPrev :: pprev)) :
    node.Indexes (candidateBlocks pindexPrev pprev) :=
  fun pindex present => indexes pindex (candidateBlocks_subset _ _ present)

theorem computeNextStakeModifier_congr
    (hashOf : Uint256 → Nat → Uint256)
    {blocks : List ModifierIndex}
    (above : ∀ pindexPrev ∈ blocks.head?, pindexPrev.nHeight ≠ 0)
    {node other : ModifierNode}
    (indexes : node.Indexes blocks)
    (other_indexes : other.Indexes blocks) :
    node.computeNextStakeModifier hashOf blocks = other.computeNextStakeModifier hashOf blocks := by
  cases blocks with
  | nil => rfl
  | cons pindexPrev pprev =>
    have not_genesis := above pindexPrev rfl
    unfold ModifierNode.computeNextStakeModifier
    simp only [if_neg not_genesis,
      selectionRounds_congr indexes.candidates other_indexes.candidates]

/-- A node that holds just the blocks of a chain. -/
def ModifierChain.node (chain : ModifierChain) (stakemodifier : Fin (2 ^ 64)) :
    ModifierNode where
  mapBlockIndex hash := chain.blocks.find? fun pindex => pindex.hash = hash
  stakemodifier

theorem ModifierChain.node_indexes (chain : ModifierChain) (stakemodifier : Fin (2 ^ 64)) :
    (chain.node stakemodifier).Indexes chain.blocks := by
  intro pindex present
  have found : (chain.blocks.find? fun other => other.hash = pindex.hash).isSome :=
    List.find?_isSome.mpr ⟨pindex, present, decide_eq_true rfl⟩
  obtain ⟨other, lookup⟩ := Option.isSome_iff_exists.mp found
  have hash_eq := List.find?_some lookup
  have same : other = pindex :=
    List.inj_on_of_nodup_map chain.distinct (List.mem_of_find?_eq_some lookup) present
      (of_decide_eq_true hash_eq)
  rw [same] at lookup
  exact lookup

/-- When the last modifier is old enough, the node selects as many candidates as there are, up to
64, all distinct, and makes the new modifier from their bits. -/
def ModifierNode.SelectsCandidates (hashOf : Uint256 → Nat → Uint256) (node : ModifierNode) :
    List ModifierIndex → Prop
  | [] => True
  | pindexPrev :: pprev =>
    ∀ nStakeModifier nModifierTime,
      getLastStakeModifier (pindexPrev :: pprev) = some (nStakeModifier, nModifierTime) →
      nModifierTime / nModifierInterval < pindexPrev.nTime / nModifierInterval →
        ∃ state,
          selectionRounds hashOf node nStakeModifier
            (sortedByTimestamp (candidateBlocks pindexPrev pprev))
            (nSelectionIntervalStart pindexPrev) = some state ∧
          state.mapSelectedBlocks.length =
            min 64 (candidateBlocks pindexPrev pprev).length ∧
          (state.mapSelectedBlocks.map ModifierIndex.hash).Nodup ∧
          state.mapSelectedBlocks.map ModifierIndex.hash ⊆
            (candidateBlocks pindexPrev pprev).map ModifierIndex.hash ∧
          (pindexPrev.nHeight ≠ 0 →
            node.computeNextStakeModifier hashOf (pindexPrev :: pprev) =
              (true, state.nStakeModifierNew, true))

/-- The selection from a chain never fails. -/
theorem ModifierChain.selectsCandidates
    (hashOf : Uint256 → Nat → Uint256)
    (chain : ModifierChain)
    {node : ModifierNode}
    (indexes : node.Indexes chain.blocks) :
    node.SelectsCandidates hashOf chain.blocks := by
  rcases chain with ⟨_ | ⟨pindexPrev, pprev⟩, _, distinct⟩
  · exact trivial
  · intro nStakeModifier nModifierTime last old
    have distinct_candidates : ((candidateBlocks pindexPrev pprev).map ModifierIndex.hash).Nodup :=
      distinct.sublist ((List.takeWhile_sublist _).map _)
    obtain ⟨state, run, length_eq, nodup, among⟩ :=
      @selectionRounds_selects hashOf node nStakeModifier _ indexes.candidates
        distinct_candidates (nSelectionIntervalStart pindexPrev)
    refine ⟨state, run, length_eq, nodup, among, ?_⟩
    intro not_genesis
    unfold ModifierNode.computeNextStakeModifier
    simp only [if_neg not_genesis, last, if_neg (Nat.not_le.mpr old), run]

/-- For every chain: all nodes that hold its blocks compute the same modifier after it, and
select as many distinct candidates as there are, up to 64, when they make a new one, if and
only if its last block is not the genesis block. -/
theorem computeNextStakeModifier_determined_iff
    (hashOf : Uint256 → Nat → Uint256)
    (chain : ModifierChain) :
    ((∀ node other : ModifierNode, node.Indexes chain.blocks → other.Indexes chain.blocks →
        node.computeNextStakeModifier hashOf chain.blocks =
          other.computeNextStakeModifier hashOf chain.blocks) ∧
      ∀ node : ModifierNode, node.Indexes chain.blocks →
        node.SelectsCandidates hashOf chain.blocks) ↔
      ∀ pindexPrev ∈ chain.blocks.head?, pindexPrev.nHeight ≠ 0 := by
  constructor
  · rintro ⟨same, _⟩ pindexPrev last genesis
    have differ := same (chain.node 0) (chain.node 1) (chain.node_indexes 0)
      (chain.node_indexes 1)
    rcases blocks_eq : chain.blocks with _ | ⟨first, pprev⟩
    · rw [blocks_eq] at last
      cases last
    · rw [blocks_eq] at last differ
      injection last with last
      rw [← last] at genesis
      simp only [ModifierNode.computeNextStakeModifier, if_pos genesis, ModifierChain.node]
        at differ
      exact absurd differ (by decide)
  · intro above
    exact ⟨fun _ _ indexes other_indexes =>
        computeNextStakeModifier_congr hashOf above indexes other_indexes,
      fun _ indexes => chain.selectsCandidates hashOf indexes⟩

/-- The chain of a genesis block. -/
def genesisOnly : ModifierChain where
  blocks :=
    [{ hash := 7
       nHeight := 0
       nTime := 1504000000
       isProofOfStake := false
       nStakeModifier := 0
       generatedStakeModifier := true }]
  heights := rfl
  distinct := List.nodup_singleton _

/-- After the genesis block, two runs of the program give the first block other modifiers. -/
theorem first_modifiers_differ :
    ¬∀ node other : ModifierNode, node.Indexes genesisOnly.blocks →
      other.Indexes genesisOnly.blocks →
        node.computeNextStakeModifier (fun hash _ => hash) genesisOnly.blocks =
          other.computeNextStakeModifier (fun hash _ => hash) genesisOnly.blocks := by
  intro same
  have differ := same (genesisOnly.node 4198400) (genesisOnly.node 93824992231424)
    (genesisOnly.node_indexes _) (genesisOnly.node_indexes _)
  exact absurd differ (by decide)

end ColossusCoin
