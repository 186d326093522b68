import ColossusCoin.Library.Multiples
import ColossusCoin.Masternode.BudgetSelection

/-!
# How often a proposal is paid

`CBudgetProposalBroadcast` makes a proposal last for a number of payments, and `GetBudget` takes
it for the superblocks whose whole cycle lies between its start and its end.  Every payment
makes a proposal last one block longer than a cycle, so that enough of them are good for one
payment more.
-/

namespace ColossusCoin

open GreedyFill Multiples

/-- `nProposalEnd` of `IsValid`: a proposal is not valid any more when the tip is behind it. -/
def CBudgetProposal.nProposalEnd (params : CChainParams) (proposal : CBudgetProposal) : Int :=
  proposal.nBlockStart +
    getBudgetPaymentCycleBlocks params * proposal.getTotalPaymentCount params

/-- Where nothing overflows, the end is one block more than a cycle behind for each payment. -/
theorem eq_of_proposalBlockEnd
    (made : proposalBlockEnd nCycleBlocks nBlockStart nPaymentCount = some nBlockEnd) :
    nBlockEnd =
      nBlockStart - nBlockStart.tmod nCycleBlocks + (nCycleBlocks + 1) * nPaymentCount := by
  have exact : ∀ {value result : Int}, asInt value = some result → result = value := by
    intro value result inRange
    unfold asInt at inRange
    split_ifs at inRange
    exact (Option.some_inj.mp inRange).symm
  obtain ⟨nLonger, longer, rest⟩ := Option.bind_eq_some_iff.mp made
  obtain ⟨nDuration, duration, last⟩ := Option.bind_eq_some_iff.mp rest
  rw [exact last, exact duration, exact longer]

theorem CBudgetProposal.eq_of_broadcast
    {nAlloted nPaymentCount nAmount nBlockStart : Int}
    {strProposalName strURL : String} {address : CScript} {nFeeTXHash : Uint256}
    (made : CBudgetProposal.broadcast params nAlloted strProposalName strURL nPaymentCount
      address nAmount nBlockStart nFeeTXHash = some proposal) :
    proposal.nBlockStart = nBlockStart ∧
      proposal.nBlockEnd = nBlockStart - nBlockStart.tmod (getBudgetPaymentCycleBlocks params) +
        (getBudgetPaymentCycleBlocks params + 1) * nPaymentCount := by
  obtain ⟨nBlockEnd, ends, rfl⟩ := Option.map_eq_some_iff.mp made
  exact ⟨rfl, eq_of_proposalBlockEnd ends⟩

/-- A proposal is still valid at every tip before a superblock whose cycle it covers. -/
theorem CBudgetProposal.le_nProposalEnd
    {proposal : CBudgetProposal}
    (positive : 0 < getBudgetPaymentCycleBlocks params)
    (nonneg : 0 ≤ proposal.nBlockStart)
    (before : nHeight < superblock)
    (starts : proposal.nBlockStart ≤ superblock)
    (ends : superblock + getBudgetPaymentCycleBlocks params - 1 ≤ proposal.nBlockEnd) :
    nHeight ≤ proposal.nProposalEnd params := by
  have whole := Int.emod_nonneg proposal.nBlockStart positive.ne'
  have covered : 0 ≤ proposal.nBlockEnd - proposal.getBlockStartCycle params := by
    unfold getBlockStartCycle
    rw [Int.tmod_eq_emod_of_nonneg nonneg]
    omega
  have quotient := Int.emod_add_mul_ediv
    (proposal.nBlockEnd - proposal.getBlockStartCycle params) (getBudgetPaymentCycleBlocks params)
  have below := Int.emod_lt_of_pos
    (proposal.nBlockEnd - proposal.getBlockStartCycle params) positive
  unfold nProposalEnd getTotalPaymentCount
  rw [Int.tdiv_eq_ediv_of_nonneg covered]
  unfold getBlockStartCycle at *
  rw [Int.tmod_eq_emod_of_nonneg nonneg] at *
  omega

theorem exists_nextCycleStart_iff
    (positive : 0 < nCycleBlocks)
    (superblock : Int) :
    (∃ nHeight, 0 ≤ nHeight ∧ nextCycleStart nCycleBlocks nHeight = superblock) ↔
      0 < superblock ∧ nCycleBlocks ∣ superblock := by
  rw [← exists_next_iff positive]
  constructor
  · rintro ⟨nHeight, nonneg, rfl⟩
    exact ⟨nHeight, nonneg, by rw [nextCycleStart, Int.tmod_eq_emod_of_nonneg nonneg]⟩
  · rintro ⟨nHeight, nonneg, rfl⟩
    exact ⟨nHeight, nonneg, by rw [nextCycleStart, Int.tmod_eq_emod_of_nonneg nonneg]⟩

/-- The next superblock is ahead. -/
theorem lt_nextCycleStart
    (positive : 0 < nCycleBlocks)
    (nonneg : 0 ≤ nHeight) :
    nHeight < nextCycleStart nCycleBlocks nHeight := by
  have below := Int.emod_lt_of_pos nHeight positive
  rw [nextCycleStart, Int.tmod_eq_emod_of_nonneg nonneg]
  omega

variable {nCycleBlocks nBlockStart : Int}

/-- How many superblocks a proposal covers that was made for a number of payments. -/
theorem ncard_cyclesWithin_proposal
    (positive : 0 < nCycleBlocks)
    (nonneg : 0 ≤ nBlockStart)
    (nPaymentCount : Int) :
    ((cyclesWithin nCycleBlocks nBlockStart (nBlockStart - nBlockStart.tmod nCycleBlocks +
        (nCycleBlocks + 1) * nPaymentCount)).ncard : Int) =
      max (nPaymentCount - 1 + (nPaymentCount + 1) / nCycleBlocks +
        if nCycleBlocks ∣ nBlockStart ∧ 0 < nBlockStart then 1 else 0) 0 := by
  have parts := Int.emod_add_mul_ediv nBlockStart nCycleBlocks
  have ends : nBlockStart - nBlockStart % nCycleBlocks + (nCycleBlocks + 1) * nPaymentCount + 1 =
      nPaymentCount + 1 + (nBlockStart / nCycleBlocks + nPaymentCount) * nCycleBlocks := by
    rw [Int.add_mul, Int.add_mul, Int.one_mul, Int.mul_comm nPaymentCount,
      Int.mul_comm (nBlockStart / nCycleBlocks)]
    omega
  rw [Int.tmod_eq_emod_of_nonneg nonneg, ncard_cyclesWithin positive nonneg, ends,
    Int.add_mul_ediv_right _ _ positive.ne']
  omega

/-- The covered superblocks are as many as the payments exactly if the payments are fewer than
the blocks of a cycle, or, where the start is no superblock, one payment is lost and the
cycle's worth of them that makes up for it is there once. -/
theorem ncard_eq_iff
    (positive : 0 < nCycleBlocks)
    (nonneg : 0 ≤ nBlockStart)
    (nPaymentCount : Int) :
    ((cyclesWithin nCycleBlocks nBlockStart (nBlockStart - nBlockStart.tmod nCycleBlocks +
        (nCycleBlocks + 1) * nPaymentCount)).ncard : Int) = nPaymentCount ↔
      if nCycleBlocks ∣ nBlockStart ∧ 0 < nBlockStart then
        0 ≤ nPaymentCount ∧ nPaymentCount + 1 < nCycleBlocks
      else
        nPaymentCount = 0 ∨
          nCycleBlocks ≤ nPaymentCount + 1 ∧ nPaymentCount + 1 < 2 * nCycleBlocks := by
  have small : (nPaymentCount + 1) / nCycleBlocks = 0 ↔
      0 ≤ nPaymentCount + 1 ∧ nPaymentCount + 1 < nCycleBlocks := by
    rw [Int.ediv_eq_iff_of_pos positive]
    omega
  have once : (nPaymentCount + 1) / nCycleBlocks = 1 ↔
      nCycleBlocks ≤ nPaymentCount + 1 ∧ nPaymentCount + 1 < 2 * nCycleBlocks := by
    rw [Int.ediv_eq_iff_of_pos positive]
    omega
  rw [ncard_cyclesWithin_proposal positive nonneg]
  split_ifs
  · constructor
    · intro same
      have none : (nPaymentCount + 1) / nCycleBlocks = 0 := by omega
      have fewer := small.mp none
      omega
    · rintro ⟨some, fewer⟩
      omega
  · rw [← once]
    constructor
    · omega
    · rintro (rfl | full)
      · omega
      · have enough := once.mp full
        omega

namespace BudgetNode

variable {node : BudgetNode} {hash : Uint256}

/-- There is money for a proposal in the next budget: its amount fits beside what is chosen
before it. -/
def IsFundable (node : BudgetNode) (nHeight : Int)
    (mapProposals : SortedMap Uint256 CBudgetProposal) (entry : Uint256 × CBudgetProposal) :
    Prop :=
  ∀ before after, node.sortedProposals mapProposals = before ++ entry :: after →
    ((node.fillBudget nHeight before).map amountOf).sum + amountOf entry ≤
      getTotalBudget node.params (node.superblock nHeight)

theorem isFundable_of_alone
    (alone : node.sortedProposals mapProposals = [entry])
    (enough : amountOf entry ≤ getTotalBudget node.params (node.superblock nHeight)) :
    node.IsFundable nHeight mapProposals entry := by
  intro before after split
  rw [alone] at split
  have nothing : before = [] := by
    have count := congrArg List.length split
    rw [List.length_append, List.length_cons, List.length_cons, List.length_nil] at count
    exact List.eq_nil_of_length_eq_zero (by omega)
  have nobody : node.fillBudget nHeight [] = [] := rfl
  rw [nothing, nobody, List.map_nil, List.sum_nil, zero_add]
  exact enough

/-- The proposal under a hash is sorted with the validity of its votes renewed. -/
theorem mem_sortedProposals_iff :
    entry ∈ node.sortedProposals mapProposals ↔
      ∃ held, mapProposals.get? entry.1 = some held ∧ node.cleanAndRemove held = entry.2 := by
  rw [(sortedProposals_perm node mapProposals).mem_iff, ← SortedMap.get?_eq_some_iff,
    SortedMap.get?_mapValues, Option.map_eq_some_iff]

/-- A candidate is chosen if there is money for it. -/
theorem mem_fillBudget
    (sorted : entry ∈ node.sortedProposals mapProposals)
    (fundable : node.IsFundable nHeight mapProposals entry)
    (candidate : node.isCandidate nHeight entry = true) :
    entry ∈ node.fillBudget nHeight (node.sortedProposals mapProposals) := by
  have nodup : (node.sortedProposals mapProposals).Nodup :=
    (sortedProposals_perm node mapProposals).nodup_iff.mpr (SortedMap.nodup_entries _)
  obtain ⟨before, after, split⟩ := List.append_of_mem sorted
  have fits := fundable before after split
  rw [split, List.nodup_append, List.nodup_cons] at nodup
  obtain ⟨_, ⟨notAfter, _⟩, apart⟩ := nodup
  have notBefore : entry ∉ before := fun member =>
    apart entry member entry List.mem_cons_self rfl
  unfold fillBudget at fits ⊢
  rw [split, List.filter_append, List.filter_cons_of_pos candidate,
    mem_fill_iff (fun member => notBefore (List.mem_of_mem_filter member))
      fun member => notAfter (List.mem_of_mem_filter member)]
  omega

theorem isCandidate_of_getBudget
    (tip : node.nTipHeight = some nHeight)
    (run : node.getBudget mapProposals = some (result, updated))
    (returned : hash ∈ result.map Prod.fst) :
    ∃ held, mapProposals.get? hash = some held ∧
      node.isCandidate nHeight (hash, node.cleanAndRemove held) = true := by
  rw [getBudget_eq_fill tip run, List.map_map] at returned
  obtain ⟨⟨here, cleaned⟩, chosen, rfl⟩ := List.mem_map.mp returned
  obtain ⟨held, found, rfl⟩ := mem_sortedProposals_iff.mp
    (List.mem_of_mem_filter ((fill_sublist _ _).subset chosen))
  exact ⟨held, found, isCandidate_of_mem_fillBudget chosen⟩

/-- A candidate with money for it is returned. -/
theorem mem_getBudget
    (tip : node.nTipHeight = some nHeight)
    (run : node.getBudget mapProposals = some (result, updated))
    (found : mapProposals.get? hash = some proposal)
    (fundable : node.IsFundable nHeight mapProposals (hash, node.cleanAndRemove proposal))
    (candidate : node.isCandidate nHeight (hash, node.cleanAndRemove proposal) = true) :
    hash ∈ result.map Prod.fst := by
  have sorted : (hash, node.cleanAndRemove proposal) ∈ node.sortedProposals mapProposals :=
    mem_sortedProposals_iff.mpr ⟨proposal, found, rfl⟩
  rw [getBudget_eq_fill tip run, List.map_map]
  exact List.mem_map.mpr ⟨_, mem_fillBudget sorted fundable candidate, rfl⟩

end BudgetNode

/-- What a node chooses budgets with and the proposals that it has, at every height of its
tip. -/
structure BudgetHistory where
  node : Int → BudgetNode
  mapProposals : Int → SortedMap Uint256 CBudgetProposal

namespace BudgetHistory

/-- `GetBudget` returns the proposal under a hash for a superblock. -/
def IsEligibleAt (history : BudgetHistory) (params : CChainParams) (hash : Uint256)
    (superblock : Int) : Prop :=
  ∃ nHeight, 0 ≤ nHeight ∧
    nextCycleStart (getBudgetPaymentCycleBlocks params) nHeight = superblock ∧
    ∃ result updated,
      (history.node nHeight).getBudget (history.mapProposals nHeight) = some (result, updated) ∧
      hash ∈ result.map Prod.fst

/-- There are exactly so many superblocks that `GetBudget` returns the proposal for. -/
def PaysExactly (history : BudgetHistory) (params : CChainParams) (hash : Uint256)
    (nPaymentCount : Int) : Prop :=
  {superblock | history.IsEligibleAt params hash superblock}.Finite ∧
    ({superblock | history.IsEligibleAt params hash superblock}.ncard : Int) = nPaymentCount

/-- A node has a proposal, approved, established and with money for it, at each of the tips
whose next superblock is between the start and the end of the proposal. -/
structure Backs (history : BudgetHistory) (params : CChainParams) (hash : Uint256)
    (proposal : CBudgetProposal) : Prop where
  network : ∀ nHeight, (history.node nHeight).params = params
  tip : ∀ nHeight, (history.node nHeight).nTipHeight = some nHeight
  same : ∀ nHeight held, (history.mapProposals nHeight).get? hash = some held →
    held.nBlockStart = proposal.nBlockStart ∧ held.nBlockEnd = proposal.nBlockEnd
  inRange : ∀ nHeight, 0 ≤ nHeight →
    proposal.nBlockStart ≤ nextCycleStart (getBudgetPaymentCycleBlocks params) nHeight →
    nextCycleStart (getBudgetPaymentCycleBlocks params) nHeight ≤ proposal.nBlockEnd →
    ((history.node nHeight).getBudget (history.mapProposals nHeight)).isSome = true
  approved : ∀ nHeight, 0 ≤ nHeight →
    proposal.nBlockStart ≤ nextCycleStart (getBudgetPaymentCycleBlocks params) nHeight →
    nextCycleStart (getBudgetPaymentCycleBlocks params) nHeight ≤ proposal.nBlockEnd →
    ∃ held, (history.mapProposals nHeight).get? hash = some held ∧
      (nHeight ≤ proposal.nProposalEnd params → held.fValid = true) ∧
      (0 < ((history.node nHeight).cleanAndRemove held).getYeas ∧
        (history.node nHeight).nCountEnabled.tdiv 10 ≤
          ((history.node nHeight).cleanAndRemove held).getYeas -
            ((history.node nHeight).cleanAndRemove held).getNays) ∧
      (history.node nHeight).isEstablished held = true ∧
      (history.node nHeight).IsFundable nHeight (history.mapProposals nHeight)
        (hash, (history.node nHeight).cleanAndRemove held)

variable {history : BudgetHistory} {params : CChainParams} {hash : Uint256}
  {proposal : CBudgetProposal}

theorem Backs.isEligibleAt_eq
    (backs : history.Backs params hash proposal)
    (positive : 0 < getBudgetPaymentCycleBlocks params)
    (nonneg : 0 ≤ proposal.nBlockStart) :
    {superblock | history.IsEligibleAt params hash superblock} =
      cyclesWithin (getBudgetPaymentCycleBlocks params) proposal.nBlockStart
        proposal.nBlockEnd := by
  ext superblock
  unfold cyclesWithin
  rw [Set.mem_ofPred_eq, Set.mem_ofPred_eq, ← exists_nextCycleStart_iff positive]
  have next : ∀ nHeight, (history.node nHeight).superblock nHeight =
      nextCycleStart (getBudgetPaymentCycleBlocks params) nHeight := by
    intro nHeight
    rw [BudgetNode.superblock, backs.network nHeight]
  constructor
  · rintro ⟨nHeight, started, rfl, result, updated, run, returned⟩
    obtain ⟨held, found, candidate⟩ :=
      BudgetNode.isCandidate_of_getBudget (backs.tip nHeight) run returned
    obtain ⟨sameStart, sameEnd⟩ := backs.same nHeight held found
    rw [BudgetNode.isCandidate_iff, next, backs.network nHeight] at candidate
    obtain ⟨⟨starts, ends⟩, _⟩ := candidate
    exact ⟨⟨nHeight, started, rfl⟩, sameStart.symm.trans_le starts, ends.trans_eq sameEnd⟩
  · rintro ⟨⟨nHeight, started, rfl⟩, starts, ends⟩
    refine ⟨nHeight, started, rfl, ?_⟩
    have within : nextCycleStart (getBudgetPaymentCycleBlocks params) nHeight ≤
        proposal.nBlockEnd := by omega
    obtain ⟨⟨result, updated⟩, run⟩ :=
      Option.isSome_iff_exists.mp (backs.inRange nHeight started starts within)
    refine ⟨result, updated, run, ?_⟩
    obtain ⟨held, found, valid, threshold, established, fundable⟩ :=
      backs.approved nHeight started starts within
    obtain ⟨sameStart, sameEnd⟩ := backs.same nHeight held found
    have unexpired := CBudgetProposal.le_nProposalEnd positive nonneg
      (lt_nextCycleStart positive started) starts ends
    apply BudgetNode.mem_getBudget (backs.tip nHeight) run found fundable
    rw [BudgetNode.isCandidate_iff, next, backs.network nHeight]
    exact ⟨⟨sameStart.trans_le starts, ends.trans_eq sameEnd.symm⟩, valid unexpired, threshold,
      established⟩

/-- As many superblocks as the proposal covers are paid. -/
theorem Backs.paysExactly_iff
    (backs : history.Backs params hash proposal)
    (positive : 0 < getBudgetPaymentCycleBlocks params)
    (nonneg : 0 ≤ proposal.nBlockStart)
    (nPaymentCount : Int) :
    history.PaysExactly params hash nPaymentCount ↔
      ((cyclesWithin (getBudgetPaymentCycleBlocks params) proposal.nBlockStart
        proposal.nBlockEnd).ncard : Int) = nPaymentCount := by
  unfold PaysExactly
  rw [backs.isEligibleAt_eq positive nonneg, and_iff_right (finite_cyclesWithin _ _ _)]

/-- A node of the test network with one approved proposal. -/
def ofOneProposal (nBlockStart nBlockEnd : Int) : BudgetHistory where
  node := BudgetNode.knowingNode
  mapProposals _ := .ofArrivals [(1, BudgetNode.approvedProposal nBlockStart nBlockEnd 7)]

theorem tenCoins_le_getTotalBudget
    (started : 2 ≤ nHeight) :
    10 * coin ≤ getTotalBudget .testNet nHeight := by
  have first : CChainParams.testNet.getChainHeight .h1 = 1 := rfl
  unfold getTotalBudget getBlockValueBudget getBlockValue
  rw [first]
  split_ifs <;> first | omega | decide

theorem backs_ofOneProposal
    (started : 2 ≤ proposal.nBlockStart) :
    (ofOneProposal proposal.nBlockStart proposal.nBlockEnd).Backs .testNet 1 proposal := by
  have held : (SortedMap.ofArrivals [((1 : Uint256),
      BudgetNode.approvedProposal proposal.nBlockStart proposal.nBlockEnd 7)]).get? 1 =
        some (BudgetNode.approvedProposal proposal.nBlockStart proposal.nBlockEnd 7) := rfl
  refine {
    network := fun _ => rfl
    tip := fun _ => rfl
    same := ?_
    inRange := ?_
    approved := ?_
  }
  · intro nHeight other found
    rw [← Option.some_inj.mp (held.symm.trans found)]
    exact ⟨rfl, rfl⟩
  · intro nHeight _ _ _
    apply BudgetNode.isSome_getBudget (.inr (.inl rfl))
    intro hash other found
    cases List.mem_singleton.mp (SortedMap.mem_of_ofArrivals found)
    exact ⟨le_refl (10 * coin), tenCoins_le_getTotalBudget started⟩
  · intro nHeight _ starts _
    have yeas : ((BudgetNode.knowingNode nHeight).cleanAndRemove
        (BudgetNode.approvedProposal proposal.nBlockStart proposal.nBlockEnd 7)).getYeas = 1 := rfl
    have nays : ((BudgetNode.knowingNode nHeight).cleanAndRemove
        (BudgetNode.approvedProposal proposal.nBlockStart proposal.nBlockEnd 7)).getNays = 0 := rfl
    refine ⟨_, held, fun _ => rfl, ⟨yeas ▸ by decide, ?_⟩, rfl, ?_⟩
    · unfold ofOneProposal
      rw [yeas, nays]
      exact (by decide : (5 : Int).tdiv 10 ≤ 1 - 0)
    · exact BudgetNode.isFundable_of_alone
        (List.perm_singleton.mp (BudgetNode.sortedProposals_perm _ _))
        (tenCoins_le_getTotalBudget (started.trans starts))

/-- For every length of the cycle, every start and every number of payments: a proposal that is
approved and funded all along is paid for as many superblocks as it was made for exactly if its
start is a superblock and the payments and one more are fewer than the blocks of a cycle, or
its start is none and the payments and one more are a cycle's worth but not two. -/
theorem paysExactly_iff_fewer
    {nAlloted nPaymentCount nAmount nBlockStart : Int} {strProposalName strURL : String}
    {address : CScript} {nFeeTXHash : Uint256}
    (positive : 0 < getBudgetPaymentCycleBlocks params)
    (nonneg : 0 ≤ nBlockStart)
    (made : CBudgetProposal.broadcast params nAlloted strProposalName strURL nPaymentCount
      address nAmount nBlockStart nFeeTXHash = some proposal)
    (backs : history.Backs params hash proposal) :
    history.PaysExactly params hash nPaymentCount ↔
      if getBudgetPaymentCycleBlocks params ∣ nBlockStart ∧ 0 < nBlockStart then
        0 ≤ nPaymentCount ∧ nPaymentCount + 1 < getBudgetPaymentCycleBlocks params
      else
        nPaymentCount = 0 ∨
          getBudgetPaymentCycleBlocks params ≤ nPaymentCount + 1 ∧
            nPaymentCount + 1 < 2 * getBudgetPaymentCycleBlocks params := by
  obtain ⟨starts, ends⟩ := CBudgetProposal.eq_of_broadcast made
  rw [backs.paysExactly_iff positive (nonneg.trans_eq starts.symm), starts, ends]
  exact ncard_eq_iff positive nonneg nPaymentCount

/-- The theorem at a proposal of two payments. -/
theorem paysExactly_iff_fewer_twoPayments :
    ∃ proposal,
      CBudgetProposal.broadcast .testNet 0 "proposal" "" 2 [] (10 * coin) 240 7 =
        some proposal ∧
      (ofOneProposal proposal.nBlockStart proposal.nBlockEnd).PaysExactly .testNet 1 2 := by
  obtain ⟨proposal, made⟩ : ∃ proposal, CBudgetProposal.broadcast .testNet 0 "proposal" "" 2 []
      (10 * coin) 240 7 = some proposal := ⟨_, rfl⟩
  obtain ⟨starts, _⟩ := CBudgetProposal.eq_of_broadcast made
  exact ⟨proposal, made, (paysExactly_iff_fewer (by decide) (by decide) made
    (backs_ofOneProposal (by omega))).mpr (by decide)⟩

/-- A proposal of 119 payments is paid for 120 superblocks. -/
theorem one_payment_more :
    ∃ proposal,
      CBudgetProposal.broadcast .testNet 0 "proposal" "" 119 [] (10 * coin) 240 7 =
        some proposal ∧
      (ofOneProposal proposal.nBlockStart proposal.nBlockEnd).Backs .testNet 1 proposal ∧
      (ofOneProposal proposal.nBlockStart proposal.nBlockEnd).PaysExactly .testNet 1 120 ∧
      ¬(ofOneProposal proposal.nBlockStart proposal.nBlockEnd).PaysExactly .testNet 1 119 := by
  have positive : 0 < getBudgetPaymentCycleBlocks .testNet := by decide
  obtain ⟨proposal, made⟩ : ∃ proposal, CBudgetProposal.broadcast .testNet 0 "proposal" "" 119 []
      (10 * coin) 240 7 = some proposal := ⟨_, rfl⟩
  obtain ⟨starts, ends⟩ := CBudgetProposal.eq_of_broadcast made
  have backs : (ofOneProposal proposal.nBlockStart proposal.nBlockEnd).Backs .testNet 1
      proposal := backs_ofOneProposal (by omega)
  have count := ncard_cyclesWithin_proposal positive (by decide : (0 : Int) ≤ 240) 119
  rw [← ends] at count
  refine ⟨proposal, made, backs, ?_, ?_⟩
  · rw [backs.paysExactly_iff positive (by omega), starts, count]
    decide
  · rw [backs.paysExactly_iff positive (by omega), starts, count]
    decide

end BudgetHistory

end ColossusCoin
