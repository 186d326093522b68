import ColossusCoin.Masternode.BudgetProducer
import ColossusCoin.Masternode.BudgetProposals
import Mathlib.Data.Prod.Lex

/-!
# The proposals of the next budget

`GetBudget` takes the proposals that pass its first check, in the order of their net votes and
then of their fee transactions, as long as their amounts fit into the budget of the next
superblock.  What it returns is determined by what the node has under the hashes of proposals.
-/

namespace ColossusCoin

open GreedyFill

/-- What proposals are ranked by: net votes, then the hash of the fee transaction. -/
def proposalRank (nVotes : Int) (proposal : CBudgetProposal) : Int ×ₗ Nat :=
  toLex (nVotes, proposal.nFeeTXHash)

/-- The comparison asks for the higher rank. -/
theorem sortProposalsByVotes_iff (left right : (Uint256 × CBudgetProposal) × Int) :
    sortProposalsByVotes left right = true ↔
      proposalRank right.2 right.1.2 < proposalRank left.2 left.1.2 := by
  unfold sortProposalsByVotes proposalRank
  rw [Prod.Lex.toLex_lt_toLex]
  split_ifs with differ
  · simp [Ne.symm differ]
  · simp [not_not.mp differ]

theorem strictWeakOrder_sortProposalsByVotes : StrictWeakOrder sortProposalsByVotes :=
  .of_key sortProposalsByVotes_iff

namespace BudgetNode

variable {node : BudgetNode} {mapProposals : SortedMap Uint256 CBudgetProposal}

/-- `GetYeas() - GetNays()`. -/
def netVotes (entry : Uint256 × CBudgetProposal) : Int :=
  entry.2.getYeas - entry.2.getNays

/-- The sorted proposals are those of the map, with the validity of their votes renewed. -/
theorem sortedProposals_perm
    (node : BudgetNode) (mapProposals : SortedMap Uint256 CBudgetProposal) :
    (node.sortedProposals mapProposals).Perm
      (mapProposals.mapValues node.cleanAndRemove).entries := by
  have perm := (node.sorting.perm
    ((mapProposals.mapValues node.cleanAndRemove).entries.map fun entry =>
      (entry, netVotes entry))).map Prod.fst
  rw [List.map_map] at perm
  have same : ((mapProposals.mapValues node.cleanAndRemove).entries.map
      (Prod.fst ∘ fun entry => (entry, netVotes entry))) =
        (mapProposals.mapValues node.cleanAndRemove).entries := List.map_id _
  rw [same] at perm
  exact perm

theorem pairwise_sortedProposals
    (node : BudgetNode) (mapProposals : SortedMap Uint256 CBudgetProposal) :
    (node.sortedProposals mapProposals).Pairwise fun first second =>
      proposalRank (netVotes second) second.2 ≤ proposalRank (netVotes first) first.2 := by
  unfold sortedProposals
  rw [List.pairwise_map]
  have votes : ∀ pair ∈ node.sorting.sort
      ((mapProposals.mapValues node.cleanAndRemove).entries.map fun entry =>
        (entry, netVotes entry)), pair.2 = netVotes pair.1 := by
    intro pair member
    obtain ⟨entry, _, rfl⟩ := List.mem_map.mp ((node.sorting.perm _).mem_iff.mp member)
    rfl
  refine (node.sorting.sorted _).imp_of_mem ?_
  intro first second firstMember secondMember behind
  rw [← Bool.not_eq_true, sortProposalsByVotes_iff, not_lt, votes first firstMember,
    votes second secondMember] at behind
  exact behind

/-- The amount of a proposal. -/
def amountOf (entry : Uint256 × CBudgetProposal) : Int :=
  entry.2.nAmount

/-- What the loop adds is the greedy filling of the budget with the proposals that pass the first
check. -/
theorem fill_of_grabBudgets
    (run : node.grabBudgets nBlockStart nBlockEnd nTotalBudget entries nBudgetAllocated =
      some decisions) :
    (decisions.filter fun entry => entry.2 = .added).map Prod.fst =
      fill amountOf nTotalBudget
        (entries.filter fun entry => node.isEligible nBlockStart nBlockEnd entry.2)
        nBudgetAllocated := by
  induction entries generalizing nBudgetAllocated decisions with
  | nil =>
    cases run
    rfl
  | cons entry rest ih =>
    unfold grabBudgets at run
    split_ifs at run with passes
    · obtain ⟨nAllocated, inRange, run⟩ := Option.bind_eq_some_iff.mp run
      have summed : nAllocated = entry.2.nAmount + nBudgetAllocated := by
        unfold asAmount at inRange
        split_ifs at inRange
        exact (Option.some_inj.mp inRange).symm
      rw [List.filter_cons, if_pos passes, fill]
      split_ifs at run with fits
      · obtain ⟨later, laterRun, rfl⟩ := Option.map_eq_some_iff.mp run
        have taken : amountOf entry + nBudgetAllocated ≤ nTotalBudget := summed ▸ fits
        have next : nAllocated = nBudgetAllocated + amountOf entry := by
          rw [summed, amountOf]
          omega
        rw [if_pos taken, ← next, ← ih laterRun]
        rfl
      · obtain ⟨later, laterRun, rfl⟩ := Option.map_eq_some_iff.mp run
        have passedOver : ¬amountOf entry + nBudgetAllocated ≤ nTotalBudget := summed ▸ fits
        rw [if_neg passedOver, ← ih laterRun]
        rfl
    · obtain ⟨later, laterRun, rfl⟩ := Option.map_eq_some_iff.mp run
      have skipped : (entry :: rest).filter
          (fun entry => node.isEligible nBlockStart nBlockEnd entry.2) =
            rest.filter fun entry => node.isEligible nBlockStart nBlockEnd entry.2 :=
        List.filter_cons_of_neg passes
      rw [skipped, ← ih laterRun]
      rfl

/-- While the amounts and the budget are far from the bounds of `CAmount`, nothing overflows. -/
theorem isSome_grabBudgets
    (bounded : ∀ entry ∈ entries, 0 ≤ amountOf entry ∧ amountOf entry + nTotalBudget ≤ int64Max)
    (nonneg : 0 ≤ nBudgetAllocated)
    (fits : nBudgetAllocated ≤ nTotalBudget) :
    (node.grabBudgets nBlockStart nBlockEnd nTotalBudget entries nBudgetAllocated).isSome =
      true := by
  induction entries generalizing nBudgetAllocated with
  | nil => rfl
  | cons entry rest ih =>
    obtain ⟨⟨amountNonneg, amountFits⟩, later⟩ := List.forall_mem_cons.mp bounded
    unfold amountOf at amountNonneg amountFits
    unfold grabBudgets
    have inRange : asAmount (entry.2.nAmount + nBudgetAllocated) =
        some (entry.2.nAmount + nBudgetAllocated) := if_pos (by omega)
    split_ifs with passes
    · rw [inRange, Option.bind_some]
      split_ifs with within
      · rw [Option.isSome_map]
        exact ih later (by omega) within
      · rw [Option.isSome_map]
        exact ih later nonneg fits
    · rw [Option.isSome_map]
      exact ih later nonneg fits

/-- The superblock that a node with a tip chooses proposals for. -/
def superblock (node : BudgetNode) (nHeight : Int) : Int :=
  nextCycleStart (getBudgetPaymentCycleBlocks node.params) nHeight

/-- The first check for the next superblock. -/
def isCandidate (node : BudgetNode) (nHeight : Int) (entry : Uint256 × CBudgetProposal) : Bool :=
  node.isEligible (node.superblock nHeight)
    (node.superblock nHeight + getBudgetPaymentCycleBlocks node.params - 1) entry.2

/-- The greedy filling of the budget of the next superblock with the candidates in some order. -/
def fillBudget (node : BudgetNode) (nHeight : Int) (order : List (Uint256 × CBudgetProposal)) :
    List (Uint256 × CBudgetProposal) :=
  fill amountOf (getTotalBudget node.params (node.superblock nHeight))
    (order.filter (node.isCandidate nHeight)) 0

/-- A proposal with its amount allotted to it. -/
def allotted (entry : Uint256 × CBudgetProposal) : Uint256 × CBudgetProposal :=
  (entry.1, entry.2.setAllotted entry.2.nAmount)

variable {params : CChainParams} {nHeight : Int} {result : List (Uint256 × CBudgetProposal)}
variable {updated : SortedMap Uint256 CBudgetProposal}

theorem getBudget_eq_fill
    (tip : node.nTipHeight = some nHeight)
    (run : node.getBudget mapProposals = some (result, updated)) :
    result = (node.fillBudget nHeight (node.sortedProposals mapProposals)).map allotted := by
  unfold getBudget at run
  rw [tip] at run
  obtain ⟨decisions, grabbed, same⟩ := Option.map_eq_some_iff.mp run
  have added : ∀ entry ∈ decisions.filter fun entry => entry.2 = .added,
      decided entry = allotted entry.1 := by
    intro entry member
    have here : entry.2 = .added := of_decide_eq_true (List.mem_filter.mp member).2
    unfold decided
    rw [here]
    rfl
  have chosen : node.fillBudget nHeight (node.sortedProposals mapProposals) =
      (decisions.filter fun entry => entry.2 = .added).map Prod.fst :=
    (fill_of_grabBudgets grabbed).symm
  rw [chosen, List.map_map, ← (Prod.mk.inj same).1]
  exact List.map_congr_left added

/-- What `GetBudget` is for: proposals of the map that pass the threshold and the window, chosen
greedily in an order of their ranks, with amounts that fit into the budget together. -/
structure Selects (node : BudgetNode) (nHeight : Int)
    (mapProposals : SortedMap Uint256 CBudgetProposal)
    (result : List (Uint256 × CBudgetProposal)) : Prop where
  bounded : (result.map fun entry => entry.2.nAlloted).sum ≤
    getTotalBudget node.params (node.superblock nHeight)
  allotted : ∀ entry ∈ result, entry.2.nAlloted = entry.2.nAmount
  threshold : ∀ entry ∈ result, 0 < entry.2.getYeas ∧
    node.nCountEnabled.tdiv 10 ≤ entry.2.getYeas - entry.2.getNays
  window : ∀ entry ∈ result, entry.2.nBlockStart ≤ node.superblock nHeight ∧
    node.superblock nHeight + getBudgetPaymentCycleBlocks node.params - 1 ≤ entry.2.nBlockEnd
  greedy : ∃ order,
    order.Perm (mapProposals.mapValues node.cleanAndRemove).entries ∧
    (order.Pairwise fun first second =>
      proposalRank (netVotes second) second.2 ≤ proposalRank (netVotes first) first.2) ∧
    result = (node.fillBudget nHeight order).map BudgetNode.allotted

theorem isCandidate_of_mem_fillBudget
    (member : entry ∈ node.fillBudget nHeight order) :
    node.isCandidate nHeight entry = true :=
  (List.mem_filter.mp ((fill_sublist _ _).subset member)).2

/-- A candidate is valid, has its window over the cycle and passes the threshold, and is
established. -/
theorem isCandidate_iff :
    node.isCandidate nHeight entry = true ↔
      (entry.2.nBlockStart ≤ node.superblock nHeight ∧
        node.superblock nHeight + getBudgetPaymentCycleBlocks node.params - 1 ≤ entry.2.nBlockEnd) ∧
      entry.2.fValid = true ∧
      (0 < entry.2.getYeas ∧
        node.nCountEnabled.tdiv 10 ≤ entry.2.getYeas - entry.2.getNays) ∧
      node.isEstablished entry.2 = true := by
  simp only [isCandidate, isEligible, Bool.and_eq_true, decide_eq_true_iff]
  tauto

/-- What is returned is selected as it is meant to be. -/
theorem selects_of_getBudget
    (shares : SharesFit node.params)
    (tip : node.nTipHeight = some nHeight)
    (run : node.getBudget mapProposals = some (result, updated)) :
    node.Selects nHeight mapProposals result := by
  have chosen := getBudget_eq_fill tip run
  have candidate : ∀ entry ∈ result, ∃ old, node.isCandidate nHeight old = true ∧
      entry = BudgetNode.allotted old := by
    intro entry member
    rw [chosen] at member
    obtain ⟨old, taken, rfl⟩ := List.mem_map.mp member
    exact ⟨old, isCandidate_of_mem_fillBudget taken, rfl⟩
  refine {
    bounded := ?_
    allotted := ?_
    threshold := ?_
    window := ?_
    greedy := ⟨node.sortedProposals mapProposals, sortedProposals_perm node mapProposals,
      pairwise_sortedProposals node mapProposals, chosen⟩
  }
  · have nonneg := getTotalBudget_nonneg shares (node.superblock nHeight)
    have fits : 0 + ((node.fillBudget nHeight (node.sortedProposals mapProposals)).map
        amountOf).sum ≤ getTotalBudget node.params (node.superblock nHeight) :=
      sum_fill_le _ nonneg
    rw [zero_add] at fits
    rw [chosen, List.map_map]
    exact fits
  · intro entry member
    obtain ⟨old, _, rfl⟩ := candidate entry member
    rfl
  · intro entry member
    obtain ⟨old, passes, rfl⟩ := candidate entry member
    exact (isCandidate_iff.mp passes).2.2.1
  · intro entry member
    obtain ⟨old, passes, rfl⟩ := candidate entry member
    exact (isCandidate_iff.mp passes).1

theorem getBlockValueBudget_le
    (shares : SharesFit params)
    (nHeight : Int) :
    getBlockValueBudget params nHeight ≤ 2500 * coin := by
  have share : ∀ value percent, 0 ≤ value → value ≤ 2500 * coin → 0 ≤ percent →
      percent ≤ 100 → (value * percent).tdiv 100 ≤ 2500 * coin := by
    intro value percent valueNonneg small nonneg part
    have whole : value * percent ≤ value * 100 := Int.mul_le_mul_of_nonneg_left part valueNonneg
    rw [Int.tdiv_eq_ediv_of_nonneg (Int.mul_nonneg valueNonneg nonneg)]
    omega
  have nonneg := getBlockValue_nonneg params nHeight
  have percent := shares.both
  have devFund := shares.devFund
  have atMost : nHeight ≠ params.getChainHeight .h1 →
      getBlockValue params nHeight ≤ 2500 * coin := by
    intro notFirst
    unfold getBlockValue coin
    split_ifs <;> omega
  unfold getBlockValueBudget
  split_ifs with first
  · unfold coin
    omega
  · exact share _ 5 nonneg (atMost first) (by omega) (by omega)
  · exact share _ _ nonneg (atMost first) shares.budget (by omega)

/-- Two budgets of a network together are far from the bound of `CAmount`. -/
theorem getTotalBudget_add_le
    (network : params.IsNetwork)
    (first second : Int) :
    getTotalBudget params first + getTotalBudget params second ≤ int64Max := by
  have cycle : getBudgetPaymentCycleBlocks params ≤ 43200 := by
    rcases network with rfl | rfl | rfl <;> decide
  have single : ∀ nHeight, getTotalBudget params nHeight ≤ 2500 * coin * 43200 := by
    intro nHeight
    calc getBlockValueBudget params nHeight * getBudgetPaymentCycleBlocks params
        ≤ 2500 * coin * getBudgetPaymentCycleBlocks params :=
          Int.mul_le_mul_of_nonneg_right (getBlockValueBudget_le network.sharesFit nHeight)
            network.sharesFit.cycle
      _ ≤ 2500 * coin * 43200 := Int.mul_le_mul_of_nonneg_left cycle (by unfold coin; omega)
  have firstFits := single first
  have secondFits := single second
  unfold coin at firstFits secondFits
  unfold int64Max
  omega

/-- What `IsValid` asks of the amount of a proposal before `AddProposal` adds it. -/
def AmountIsValid (params : CChainParams) (proposal : CBudgetProposal) : Prop :=
  10 * coin ≤ proposal.nAmount ∧ proposal.nAmount ≤ getTotalBudget params proposal.nBlockStart

/-- With proposals that `AddProposal` adds nothing overflows. -/
theorem isSome_getBudget
    (network : node.params.IsNetwork)
    (valid : ∀ {hash proposal}, mapProposals.get? hash = some proposal →
      AmountIsValid node.params proposal) :
    (node.getBudget mapProposals).isSome = true := by
  unfold getBudget
  rcases Option.eq_none_or_eq_some node.nTipHeight with noTip | ⟨nHeight, tip⟩
  · rw [noTip]
    rfl
  · rw [tip, Option.isSome_map]
    apply isSome_grabBudgets
    · rintro ⟨hash, proposal⟩ member
      have found := (sortedProposals_perm node mapProposals).mem_iff.mp member
      rw [← SortedMap.get?_eq_some_iff, SortedMap.get?_mapValues] at found
      obtain ⟨held, heldFound, rfl⟩ := Option.map_eq_some_iff.mp found
      obtain ⟨enough, within⟩ := valid heldFound
      have both := getTotalBudget_add_le network held.nBlockStart
        (nextCycleStart (getBudgetPaymentCycleBlocks node.params) nHeight)
      have same : amountOf (hash, node.cleanAndRemove held) = held.nAmount := rfl
      unfold coin at enough
      rw [same]
      omega
    · exact le_refl 0
    · exact getTotalBudget_nonneg network.sharesFit _

theorem grabBudgets_sorting
    (node : BudgetNode) (sorting : Sorting sortProposalsByVotes)
    (nBlockStart nBlockEnd nTotalBudget : Int)
    (entries : List (Uint256 × CBudgetProposal)) (nBudgetAllocated : Int) :
    ({ node with sorting } : BudgetNode).grabBudgets nBlockStart nBlockEnd nTotalBudget entries
        nBudgetAllocated =
      node.grabBudgets nBlockStart nBlockEnd nTotalBudget entries nBudgetAllocated := by
  induction entries generalizing nBudgetAllocated with
  | nil => rfl
  | cons entry rest ih =>
    unfold grabBudgets
    simp only [ih]
    rfl

theorem sortedProposals_sorting
    (sorting : Sorting sortProposalsByVotes)
    (apart : ∀ entry ∈ mapProposals.entries, ∀ other ∈ mapProposals.entries,
      entry.2.nFeeTXHash = other.2.nFeeTXHash → entry = other) :
    ({ node with sorting } : BudgetNode).sortedProposals mapProposals =
      node.sortedProposals mapProposals := by
  apply congrArg (List.map Prod.fst)
  apply sorted_unique ((sorting.perm _).trans (node.sorting.perm _).symm) (sorting.sorted _)
    (node.sorting.sorted _)
  intro first firstMember second secondMember behind ahead
  obtain ⟨entry, entryMember, rfl⟩ := List.mem_map.mp ((sorting.perm _).mem_iff.mp firstMember)
  obtain ⟨other, otherMember, rfl⟩ := List.mem_map.mp ((sorting.perm _).mem_iff.mp secondMember)
  obtain ⟨held, heldMember, rfl⟩ := List.mem_map.mp entryMember
  obtain ⟨another, anotherMember, rfl⟩ := List.mem_map.mp otherMember
  rw [← Bool.not_eq_true, sortProposalsByVotes_iff, not_lt] at behind ahead
  have sameRank := congrArg (fun rank => (ofLex rank).2) (le_antisymm behind ahead)
  have same : held = another := apart held heldMember another anotherMember sameRank
  rw [same]

/-- With different fee transactions the sorting function does not matter. -/
theorem getBudget_sorting
    (sorting : Sorting sortProposalsByVotes)
    (apart : ∀ entry ∈ mapProposals.entries, ∀ other ∈ mapProposals.entries,
      entry.2.nFeeTXHash = other.2.nFeeTXHash → entry = other) :
    ({ node with sorting } : BudgetNode).getBudget mapProposals = node.getBudget mapProposals := by
  unfold getBudget
  simp only [sortedProposals_sorting sorting apart, grabBudgets_sorting]
  rfl

/-- For every set of proposals that a node has, however it got them, `GetBudget` returns
proposals that are selected as they are meant to be, and the same in whatever order the
proposals arrived; with different fee transactions any sorting gives the same as well. -/
theorem getBudget_selects
    {node : BudgetNode} {nHeight : Int} {arrivals : List (Uint256 × CBudgetProposal)}
    (network : node.params.IsNetwork)
    (tip : node.nTipHeight = some nHeight)
    (distinct : (arrivals.map Prod.fst).Nodup)
    (valid : ∀ entry ∈ arrivals, AmountIsValid node.params entry.2) :
    ∃ result updated,
      node.getBudget (.ofArrivals arrivals) = some (result, updated) ∧
      node.Selects nHeight (.ofArrivals arrivals) result ∧
      (∀ others, others.Perm arrivals →
        node.getBudget (.ofArrivals others) = some (result, updated)) ∧
      ((arrivals.map fun entry => entry.2.nFeeTXHash).Nodup →
        ∀ sorting, ({ node with sorting } : BudgetNode).getBudget (.ofArrivals arrivals) =
          some (result, updated)) := by
  have member : ∀ {hash proposal},
      (SortedMap.ofArrivals arrivals).get? hash = some proposal → (hash, proposal) ∈ arrivals := by
    intro hash proposal found
    exact SortedMap.mem_of_ofArrivals found
  obtain ⟨⟨result, updated⟩, run⟩ := Option.isSome_iff_exists.mp
    (isSome_getBudget network fun found => valid _ (member found))
  refine ⟨result, updated, run, selects_of_getBudget network.sharesFit tip run, ?_, ?_⟩
  · intro others perm
    rw [← SortedMap.ofArrivals_perm perm.symm distinct]
    exact run
  · intro fees sorting
    have arrived : ∀ entry ∈ (SortedMap.ofArrivals arrivals).entries, entry ∈ arrivals := by
      rintro ⟨hash, proposal⟩ held
      exact member ((SortedMap.get?_eq_some_iff _ _ _).mpr held)
    rw [getBudget_sorting sorting, run]
    intro entry held other otherHeld same
    exact List.inj_on_of_nodup_map fees (arrived entry held) (arrived other otherHeld) same

/-- A proposal of ten coins with one vote for it. -/
def approvedProposal (nBlockStart nBlockEnd : Int) (nFeeTXHash : Uint256) : CBudgetProposal where
  nAlloted := 0
  fValid := true
  strProposalName := "proposal"
  strURL := ""
  nBlockStart
  nBlockEnd
  nAmount := 10 * coin
  address := []
  nTime := 0
  nFeeTXHash
  mapVotes := .ofArrivals
    [(1, {
      vote := {
        vin := { prevout := { hash := 1, n := 0 }, scriptSig := [], nSequence := 0 }
        nProposalHash := 1
        nVote := voteYes
        nTime := 0
        vchSig := []
      }
      fValid := true
    })]

/-- A node of the test network that knows all masternodes, five of which are enabled. -/
def knowingNode (nHeight : Int) : BudgetNode where
  params := .testNet
  isMain := false
  nTime := 1600000000
  knowsMasternode := fun _ => true
  nCountEnabled := 5
  nTipHeight := some nHeight
  sorting := strictWeakOrder_sortProposalsByVotes.insertionSort

/-- The theorem at two proposals for the same superblock. -/
theorem getBudget_selects_twoProposals :
    ∃ result updated,
      (knowingNode 1000).getBudget (.ofArrivals
        [(1, approvedProposal 1080 1201 7), (2, approvedProposal 1080 1201 8)]) =
          some (result, updated) ∧
      (knowingNode 1000).Selects 1000 (.ofArrivals
        [(1, approvedProposal 1080 1201 7), (2, approvedProposal 1080 1201 8)]) result := by
  have valid : ∀ entry ∈ [((1 : Uint256), approvedProposal 1080 1201 7),
      (2, approvedProposal 1080 1201 8)],
      AmountIsValid (knowingNode 1000).params entry.2 := by
    intro entry member
    rcases List.mem_pair.mp member with rfl | rfl <;> exact ⟨by decide, by decide⟩
  obtain ⟨result, updated, run, selects, _⟩ :=
    getBudget_selects (.inr (.inl rfl)) rfl (by decide) valid
  exact ⟨result, updated, run, selects⟩

end BudgetNode

end ColossusCoin
