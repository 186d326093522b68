import Mathlib.Data.List.Induction
import ColossusCoin.Masternode.BudgetAgreement

/-!
# The finalized budget that decides a superblock

The finalized budgets and their votes carry flags of their validity, which the sweeps over the
budgets set.  The count of votes that a superblock goes by reads none of the flags, and it is
taken anew for each height.
-/

namespace ColossusCoin

/-- A finalized budget as it is stored, with its hash and the flags `fValid` of itself and of
its votes. -/
structure StoredBudget where
  hash : Uint256
  fValid : Bool
  nBlockStart : Int
  vecBudgetPayments : List (CScript × Int)
  /-- The votes, each by the hash that it is stored under, with its flag. -/
  mapVotes : List (Uint256 × Bool)
  deriving DecidableEq, Repr

namespace StoredBudget

def getVoteCount (budget : StoredBudget) : Int :=
  budget.mapVotes.length

/-- The number of votes that are valid. -/
def validVoteCount (budget : StoredBudget) : Int :=
  (budget.mapVotes.filter Prod.snd).length

/-- The parts of the budget that payments are found by. -/
def toFinalized (budget : StoredBudget) : CFinalizedBudget where
  nBlockStart := budget.nBlockStart
  vecBudgetPayments := budget.vecBudgetPayments
  mapVotesSize := budget.getVoteCount

/-- The height lies between the first and the last block of the budget. -/
def covers (budget : StoredBudget) (nTargetHeight : Int) : Bool :=
  budget.toFinalized.covers nTargetHeight

end StoredBudget

/-- `mapFinalizedBudgets`, in the order of the map. -/
structure BudgetStore where
  budgets : List StoredBudget
  sorted : budgets.Pairwise fun first second => first.hash < second.hash

namespace BudgetStore

/-- What a node with these budgets knows of masternodes. -/
def onNode (store : BudgetStore) (masternodes : MasternodeLocal) : MasternodeLocal :=
  { masternodes with mapFinalizedBudgets := store.budgets.map StoredBudget.toFinalized }

/-- One step of `GrabHighestCount`, with the budget that it takes the payment from. -/
def grabBudget (nTargetHeight : Int) (best : Option StoredBudget) (budget : StoredBudget) :
    Option StoredBudget :=
  if 0 < budget.getVoteCount ∧ best.elim (-1) StoredBudget.getVoteCount < budget.getVoteCount ∧
      budget.covers nTargetHeight = true then
    match budget.toFinalized.getPayeeAndAmount nTargetHeight with
    | none => best
    | some _ => some budget
  else best

/-- The budget whose payment `GrabHighestCount` returns. -/
def grabbedBudget (store : BudgetStore) (nTargetHeight : Int) : Option StoredBudget :=
  store.budgets.foldl (grabBudget nTargetHeight) none

/-! ## The budget that leads -/

/-- The other budget pays at the height and has more votes stored, or as many and an earlier
place in the map. -/
def Outvotes (nTargetHeight : Int) (other budget : StoredBudget) : Prop :=
  other.covers nTargetHeight = true ∧
    (budget.getVoteCount < other.getVoteCount ∨
      (other.getVoteCount = budget.getVoteCount ∧ other.hash < budget.hash))

/-- A budget of the list pays at the height, has votes, and is outvoted by no other. -/
structure Leads (budgets : List StoredBudget) (nTargetHeight : Int) (budget : StoredBudget) :
    Prop where
  stored : budget ∈ budgets
  covers : budget.covers nTargetHeight = true
  voted : 0 < budget.getVoteCount
  unbeaten : ∀ other ∈ budgets, ¬Outvotes nTargetHeight other budget

theorem getPayeeAndAmount_of_covers
    {budget : StoredBudget}
    (covers : budget.covers nTargetHeight = true) :
    ∃ payment, budget.toFinalized.getPayeeAndAmount nTargetHeight = some payment := by
  unfold StoredBudget.covers CFinalizedBudget.covers CFinalizedBudget.getBlockEnd at covers
  rw [Bool.and_eq_true, decide_eq_true_iff, decide_eq_true_iff] at covers
  unfold CFinalizedBudget.getPayeeAndAmount
  rw [if_neg (by omega)]
  exact ⟨_, List.getElem?_eq_getElem (by omega)⟩

variable (nTargetHeight : Int)

/-- A step of the count, without the lookup of the payment. -/
theorem grabBudget_eq
    (best : Option StoredBudget)
    (budget : StoredBudget) :
    grabBudget nTargetHeight best budget =
      if 0 < budget.getVoteCount ∧
          best.elim (-1) StoredBudget.getVoteCount < budget.getVoteCount ∧
          budget.covers nTargetHeight = true then some budget
      else best := by
  unfold grabBudget
  by_cases better : 0 < budget.getVoteCount ∧
      best.elim (-1) StoredBudget.getVoteCount < budget.getVoteCount ∧
      budget.covers nTargetHeight = true
  · obtain ⟨payment, scheduled⟩ := getPayeeAndAmount_of_covers better.2.2
    rw [if_pos better, if_pos better, scheduled]
  · rw [if_neg better, if_neg better]

theorem foldl_grabBudget
    {budgets : List StoredBudget}
    (sorted : budgets.Pairwise fun first second => first.hash < second.hash) :
    (∀ budget, budgets.foldl (grabBudget nTargetHeight) none = some budget →
        Leads budgets nTargetHeight budget) ∧
      (budgets.foldl (grabBudget nTargetHeight) none = none →
        ∀ budget ∈ budgets, ¬(0 < budget.getVoteCount ∧ budget.covers nTargetHeight = true)) := by
  induction budgets using List.reverseRecOn with
  | nil =>
    constructor
    · intro budget nothing
      cases nothing
    · intro _ budget absurd_mem
      cases absurd_mem
  | append_singleton earlier last ih =>
    rw [List.pairwise_append] at sorted
    obtain ⟨leading, leaderless⟩ := ih sorted.1
    have after : ∀ budget ∈ earlier, budget.hash < last.hash :=
      fun budget member => sorted.2.2 budget member last (List.mem_singleton_self last)
    rw [List.foldl_append, List.foldl_cons, List.foldl_nil, grabBudget_eq]
    constructor
    · intro budget found
      split_ifs at found with better
      · cases found
        refine ⟨List.mem_append_right _ (List.mem_singleton_self last), better.2.2, better.1, ?_⟩
        rintro other member ⟨covers, more⟩
        rcases List.mem_append.mp member with inEarlier | isLast
        · cases best : earlier.foldl (grabBudget nTargetHeight) none with
          | none =>
            have unvoted := leaderless best other inEarlier
            exact unvoted ⟨by omega, covers⟩
          | some leader =>
            have ahead := better.2.1
            rw [best, Option.elim_some] at ahead
            exact (leading leader best).unbeaten other inEarlier ⟨covers, by omega⟩
        · rw [List.mem_singleton.mp isLast] at more
          rcases more with more | ⟨-, earlierPlace⟩
          · omega
          · exact absurd earlierPlace (Nat.lt_irrefl _)
      · have leads := leading budget found
        refine ⟨List.mem_append_left _ leads.stored, leads.covers, leads.voted, ?_⟩
        intro other member outvotes
        rcases List.mem_append.mp member with inEarlier | isLast
        · exact leads.unbeaten other inEarlier outvotes
        · rw [List.mem_singleton.mp isLast] at outvotes
          have voted := leads.voted
          have place := after budget leads.stored
          rw [found, Option.elim_some] at better
          rcases outvotes.2 with more | ⟨-, earlierPlace⟩
          · exact better ⟨by omega, more, outvotes.1⟩
          · exact absurd earlierPlace (Nat.lt_asymm place)
    · intro none_found budget member candidate
      split_ifs at none_found with better
      rcases List.mem_append.mp member with inEarlier | isLast
      · exact leaderless none_found budget inEarlier candidate
      · rw [List.mem_singleton.mp isLast] at candidate
        rw [none_found, Option.elim_none] at better
        have voted := candidate.1
        exact better ⟨voted, by omega, candidate.2⟩

theorem Leads.unique
    {budgets : List StoredBudget} {nTargetHeight : Int} {first second : StoredBudget}
    (sorted : budgets.Pairwise fun first second => first.hash < second.hash)
    (leads : Leads budgets nTargetHeight first)
    (also : Leads budgets nTargetHeight second) :
    first = second := by
  have notMore := leads.unbeaten second also.stored
  have notLess := also.unbeaten first leads.stored
  unfold Outvotes at notMore notLess
  simp only [also.covers, leads.covers, true_and, not_or, not_and] at notMore notLess
  have same : second.getVoteCount = first.getVoteCount := by omega
  have atMost := Nat.le_of_not_lt (notMore.2 same)
  have atLeast := Nat.le_of_not_lt (notLess.2 same.symm)
  by_contra different
  have equal : first.hash = second.hash := Nat.le_antisymm atMost atLeast
  obtain ⟨i, inBounds, here⟩ := List.getElem_of_mem leads.stored
  obtain ⟨j, alsoInBounds, there⟩ := List.getElem_of_mem also.stored
  rw [List.pairwise_iff_getElem] at sorted
  rcases Nat.lt_trichotomy i j with before | same | after
  · have less := sorted i j inBounds alsoInBounds before
    rw [here, there, equal] at less
    exact Nat.lt_irrefl _ less
  · subst same
    exact different (here.symm.trans there)
  · have less := sorted j i alsoInBounds inBounds after
    rw [here, there, equal] at less
    exact Nat.lt_irrefl _ less

variable {store : BudgetStore} {nTargetHeight : Int}

theorem grabbedBudget_eq_some_iff (budget : StoredBudget) :
    store.grabbedBudget nTargetHeight = some budget ↔
      Leads store.budgets nTargetHeight budget := by
  obtain ⟨leading, leaderless⟩ := foldl_grabBudget nTargetHeight store.sorted
  constructor
  · exact leading budget
  · intro leads
    cases found : store.grabbedBudget nTargetHeight with
    | none => exact absurd ⟨leads.voted, leads.covers⟩ (leaderless found budget leads.stored)
    | some other => rw [(leading other found).unique store.sorted leads]

theorem grabbedBudget_eq_none_iff :
    store.grabbedBudget nTargetHeight = none ↔
      ∀ budget ∈ store.budgets,
        ¬(0 < budget.getVoteCount ∧ budget.covers nTargetHeight = true) := by
  obtain ⟨leading, leaderless⟩ := foldl_grabBudget nTargetHeight store.sorted
  constructor
  · exact leaderless
  · intro unvoted
    cases found : store.grabbedBudget nTargetHeight with
    | none => rfl
    | some budget =>
      have leads := leading budget found
      exact absurd ⟨leads.voted, leads.covers⟩ (unvoted budget leads.stored)

/-- What `GrabHighestCount` returns for the budget that it takes the payment from. -/
def countedPayment (nTargetHeight : Int) : Option StoredBudget → Int × CScript × Int
  | none => (-1, [], 0)
  | some budget =>
    (budget.getVoteCount,
      (budget.toFinalized.getPayeeAndAmount nTargetHeight).getD ([], 0))

theorem grabStep_toFinalized
    (best : Option StoredBudget)
    (budget : StoredBudget) :
    MasternodeLocal.grabStep nTargetHeight (countedPayment nTargetHeight best) budget.toFinalized =
      countedPayment nTargetHeight (grabBudget nTargetHeight best budget) := by
  have highest : (countedPayment nTargetHeight best).1 =
      best.elim (-1) StoredBudget.getVoteCount := by
    cases best with
    | none => rfl
    | some leader => rfl
  have votes : budget.toFinalized.mapVotesSize = budget.getVoteCount := rfl
  have range : budget.toFinalized.covers nTargetHeight = budget.covers nTargetHeight := rfl
  unfold MasternodeLocal.grabStep grabBudget
  rw [highest, votes, range]
  by_cases better : 0 < budget.getVoteCount ∧
      best.elim (-1) StoredBudget.getVoteCount < budget.getVoteCount ∧
      budget.covers nTargetHeight = true
  · obtain ⟨payment, scheduled⟩ := getPayeeAndAmount_of_covers better.2.2
    rw [if_pos better, if_pos better, scheduled]
    simp [countedPayment, scheduled]
  · rw [if_neg better, if_neg better]

variable (store : BudgetStore)

theorem grabHighestCount_onNode
    (masternodes : MasternodeLocal)
    (nTargetHeight : Int) :
    (store.onNode masternodes).grabHighestCount nTargetHeight =
      countedPayment nTargetHeight (store.grabbedBudget nTargetHeight) := by
  have folded : ∀ (budgets : List StoredBudget) (best : Option StoredBudget),
      (budgets.map StoredBudget.toFinalized).foldl (MasternodeLocal.grabStep nTargetHeight)
          (countedPayment nTargetHeight best) =
        countedPayment nTargetHeight (budgets.foldl (grabBudget nTargetHeight) best) := by
    intro budgets
    induction budgets with
    | nil => exact fun best => rfl
    | cons budget rest ih =>
      intro best
      rw [List.map_cons, List.foldl_cons, List.foldl_cons, grabStep_toFinalized]
      exact ih _
  exact folded store.budgets none

/-- A stored budget with votes of five percent of the masternodes pays at the height. -/
def Supported (store : BudgetStore) (masternodes : MasternodeLocal) (nTargetHeight : Int) :
    Prop :=
  ∃ budget ∈ store.budgets, budget.covers nTargetHeight = true ∧ 0 < budget.getVoteCount ∧
    masternodes.nFivePercent ≤ budget.getVoteCount

theorem budgetPayment_isSome_iff (masternodes : MasternodeLocal) (nTargetHeight : Int) :
    (masternodes.budgetPayment nTargetHeight).isSome = true ↔
      masternodes.nFivePercent ≤ (masternodes.grabHighestCount nTargetHeight).1 := by
  unfold MasternodeLocal.budgetPayment
  generalize masternodes.grabHighestCount nTargetHeight = grabbed
  dsimp only
  split_ifs with few
  · exact iff_of_false (fun absurd_some => by cases absurd_some) (by omega)
  · exact iff_of_true rfl (by omega)

theorem budgetPayment_onNode_isSome_iff
    (masternodes : MasternodeLocal)
    (nTargetHeight : Int) :
    ((store.onNode masternodes).budgetPayment nTargetHeight).isSome = true ↔
      Supported store masternodes nTargetHeight := by
  have fivePercent : (store.onNode masternodes).nFivePercent = masternodes.nFivePercent := rfl
  have nonneg : 0 ≤ masternodes.nFivePercent := Int.natCast_nonneg _
  rw [budgetPayment_isSome_iff, grabHighestCount_onNode, fivePercent]
  cases taken : store.grabbedBudget nTargetHeight with
  | none =>
    have unvoted := grabbedBudget_eq_none_iff.mp taken
    have few : ¬masternodes.nFivePercent ≤ -1 := by omega
    refine iff_of_false few ?_
    rintro ⟨budget, stored, covers, voted, -⟩
    exact unvoted budget stored ⟨voted, covers⟩
  | some leader =>
    have leads := (grabbedBudget_eq_some_iff leader).mp taken
    change masternodes.nFivePercent ≤ leader.getVoteCount ↔ _
    constructor
    · intro enough
      exact ⟨leader, leads.stored, leads.covers, leads.voted, enough⟩
    · rintro ⟨budget, stored, covers, voted, enough⟩
      by_contra few
      exact leads.unbeaten budget stored ⟨covers, Or.inl (by omega)⟩

/-- A payment is collected for each height up to the first that no budget supports. -/
theorem lt_length_findBudgetPaymentsFrom_iff
    (masternodes : MasternodeLocal)
    (left : Nat)
    (nTargetHeight : Int)
    (i : Nat) :
    i < (masternodes.findBudgetPaymentsFrom left nTargetHeight).length ↔
      i < left ∧
        ∀ j ≤ i, (masternodes.budgetPayment (nTargetHeight + (j : Nat))).isSome = true := by
  induction left generalizing nTargetHeight i with
  | zero => simp [MasternodeLocal.findBudgetPaymentsFrom]
  | succ left ih =>
    unfold MasternodeLocal.findBudgetPaymentsFrom
    cases scheduled : masternodes.budgetPayment nTargetHeight with
    | none =>
      refine iff_of_false (Nat.not_lt_zero i) ?_
      rintro ⟨-, all⟩
      have first := all 0 (Nat.zero_le i)
      rw [Int.natCast_zero, Int.add_zero, scheduled] at first
      cases first
    | some payment =>
      simp only [List.length_cons]
      cases i with
      | zero =>
        simp [scheduled]
      | succ i =>
        rw [Nat.add_lt_add_iff_right, Nat.add_lt_add_iff_right, ih]
        refine and_congr_right fun _ => ⟨fun all j within => ?_, fun all j within => ?_⟩
        · cases j with
          | zero => simp [scheduled]
          | succ j =>
            have next := all j (Nat.le_of_succ_le_succ within)
            have shifted : nTargetHeight + 1 + (j : Int) =
                nTargetHeight + ((j + 1 : Nat) : Int) := by omega
            rwa [shifted] at next
        · have next := all (j + 1) (Nat.succ_le_succ within)
          have shifted : nTargetHeight + ((j + 1 : Nat) : Int) =
              nTargetHeight + 1 + (j : Int) := by omega
          rwa [shifted] at next

/-- The place belongs to a payment of the superblock. -/
def Collected (store : BudgetStore) (params : CChainParams) (masternodes : MasternodeLocal)
    (nTargetHeight : Int) (i : Nat) : Prop :=
  i < params.nMaxSuperBlocksPerCycle ∧
    ∀ j ≤ i, Supported store masternodes (nTargetHeight + (j : Nat))

/-- The payments of a superblock are those of its supported heights. -/
theorem lt_length_findBudgetPayments_iff
    (params : CChainParams)
    (masternodes : MasternodeLocal)
    (nTargetHeight : Int)
    (i : Nat) :
    i < ((store.onNode masternodes).findBudgetPayments params nTargetHeight).length ↔
      Collected store params masternodes nTargetHeight i := by
  unfold MasternodeLocal.findBudgetPayments Collected
  rw [lt_length_findBudgetPaymentsFrom_iff]
  simp only [budgetPayment_onNode_isSome_iff]

/-- Only valid budgets and valid votes decide: at each height the budget that is taken is valid
and the count is that of its valid votes, and the payments of the superblock are taken from a
single budget. -/
structure DecidedByValid (store : BudgetStore) (params : CChainParams)
    (masternodes : MasternodeLocal) (nTargetHeight : Int) : Prop where
  valid : ∀ height budget, store.grabbedBudget height = some budget → budget.fValid = true
  counted : ∀ height budget, store.grabbedBudget height = some budget →
    ((store.onNode masternodes).grabHighestCount height).1 = budget.validVoteCount
  single : ∀ i j : Nat,
    i < ((store.onNode masternodes).findBudgetPayments params nTargetHeight).length →
    j < ((store.onNode masternodes).findBudgetPayments params nTargetHeight).length →
    store.grabbedBudget (nTargetHeight + i) = store.grabbedBudget (nTargetHeight + j)

/-- The flags of the budget and of all its votes are set. -/
def Sound (budget : StoredBudget) : Prop :=
  budget.fValid = true ∧ ∀ vote ∈ budget.mapVotes, vote.2 = true

theorem getVoteCount_eq_validVoteCount_iff (budget : StoredBudget) :
    budget.getVoteCount = budget.validVoteCount ↔ ∀ vote ∈ budget.mapVotes, vote.2 = true := by
  unfold StoredBudget.getVoteCount StoredBudget.validVoteCount
  rw [Int.natCast_inj, eq_comm, List.length_filter_eq_length_iff]

/-- Each unsound budget is outvoted wherever it pays with votes. -/
def UnsoundOutvoted (store : BudgetStore) : Prop :=
  ∀ budget ∈ store.budgets, ¬Sound budget → 0 < budget.getVoteCount →
    ∀ height, budget.covers height = true →
      ∃ other ∈ store.budgets, Outvotes height other budget

/-- The budget that leads at the first height of the superblock pays at all heights that payments
are collected for, and none that starts later outvotes it there. -/
def LeaderStays (store : BudgetStore) (params : CChainParams) (masternodes : MasternodeLocal)
    (nTargetHeight : Int) : Prop :=
  ∀ leader, Leads store.budgets nTargetHeight leader →
    ∀ i, Collected store params masternodes nTargetHeight i →
      leader.covers (nTargetHeight + (i : Nat)) = true ∧
        ∀ other ∈ store.budgets, nTargetHeight < other.nBlockStart →
          ¬Outvotes (nTargetHeight + (i : Nat)) other leader

/-- A leading budget stays the leading one at a later height unless it ends before or a budget
that starts in between outvotes it. -/
theorem Leads.later_iff
    {budgets : List StoredBudget} {nTargetHeight : Int} {leader : StoredBudget}
    (leads : Leads budgets nTargetHeight leader)
    (i : Nat) :
    Leads budgets (nTargetHeight + i) leader ↔
      leader.covers (nTargetHeight + i) = true ∧
        ∀ other ∈ budgets, nTargetHeight < other.nBlockStart →
          ¬Outvotes (nTargetHeight + i) other leader := by
  constructor
  · exact fun later => ⟨later.covers, fun other stored _ => later.unbeaten other stored⟩
  · rintro ⟨covers, unbeaten⟩
    refine ⟨leads.stored, covers, leads.voted, ?_⟩
    rintro other stored outvotes
    by_cases starts : nTargetHeight < other.nBlockStart
    · exact unbeaten other stored starts outvotes
    · -- a budget that has started and pays later pays at the first height as well
      have first : other.covers nTargetHeight = true := by
        have pays := outvotes.1
        unfold StoredBudget.covers CFinalizedBudget.covers at pays ⊢
        have start : other.toFinalized.nBlockStart = other.nBlockStart := rfl
        rw [Bool.and_eq_true, decide_eq_true_iff, decide_eq_true_iff, start] at pays ⊢
        omega
      exact leads.unbeaten other stored ⟨first, outvotes.2⟩

theorem grabbed_sound_iff (store : BudgetStore) (masternodes : MasternodeLocal) :
    (∀ height budget, store.grabbedBudget height = some budget →
        budget.fValid = true ∧
          ((store.onNode masternodes).grabHighestCount height).1 = budget.validVoteCount) ↔
      UnsoundOutvoted store := by
  have sound : ∀ height budget, store.grabbedBudget height = some budget →
      ((budget.fValid = true ∧
        ((store.onNode masternodes).grabHighestCount height).1 = budget.validVoteCount) ↔
        Sound budget) := by
    intro height budget taken
    rw [grabHighestCount_onNode, taken]
    exact and_congr_right fun _ => getVoteCount_eq_validVoteCount_iff budget
  constructor
  · intro decided budget stored unsound voted height covers
    by_contra unbeaten
    have leads : Leads store.budgets height budget :=
      ⟨stored, covers, voted, fun other member outvotes => unbeaten ⟨other, member, outvotes⟩⟩
    have taken := (grabbedBudget_eq_some_iff budget).mpr leads
    exact unsound ((sound height budget taken).mp (decided height budget taken))
  · intro outvoted height budget taken
    have leads := (grabbedBudget_eq_some_iff budget).mp taken
    refine (sound height budget taken).mpr ?_
    by_contra unsound
    obtain ⟨other, stored, outvotes⟩ :=
      outvoted budget leads.stored unsound leads.voted height leads.covers
    exact leads.unbeaten other stored outvotes

/-- The payments of a superblock are taken from one budget exactly if the one that leads at its
first height stays ahead. -/
theorem single_iff
    (store : BudgetStore) (params : CChainParams) (masternodes : MasternodeLocal)
    (nTargetHeight : Int) :
    (∀ i j : Nat,
        i < ((store.onNode masternodes).findBudgetPayments params nTargetHeight).length →
        j < ((store.onNode masternodes).findBudgetPayments params nTargetHeight).length →
        store.grabbedBudget (nTargetHeight + i) = store.grabbedBudget (nTargetHeight + j)) ↔
      LeaderStays store params masternodes nTargetHeight := by
  simp only [lt_length_findBudgetPayments_iff]
  have first : ∀ i, Collected store params masternodes nTargetHeight i →
      Collected store params masternodes nTargetHeight 0 :=
    fun i collected => ⟨Nat.lt_of_le_of_lt (Nat.zero_le i) collected.1,
      fun j within => collected.2 j (Nat.le_trans within (Nat.zero_le i))⟩
  constructor
  · intro single leader leads i collected
    have taken := (grabbedBudget_eq_some_iff leader).mpr leads
    have same := single i 0 collected (first i collected)
    rw [Int.natCast_zero, Int.add_zero, taken] at same
    exact (leads.later_iff i).mp ((grabbedBudget_eq_some_iff leader).mp same)
  · intro stays
    have staysFirst : ∀ i, Collected store params masternodes nTargetHeight i →
        store.grabbedBudget (nTargetHeight + (i : Nat)) = store.grabbedBudget nTargetHeight := by
      intro i collected
      cases taken : store.grabbedBudget nTargetHeight with
      | none =>
        obtain ⟨budget, stored, covers, voted, -⟩ := (first i collected).2 0 (Nat.le_refl 0)
        rw [Int.natCast_zero, Int.add_zero] at covers
        exact absurd ⟨voted, covers⟩ (grabbedBudget_eq_none_iff.mp taken budget stored)
      | some leader =>
        have leads := (grabbedBudget_eq_some_iff leader).mp taken
        exact (grabbedBudget_eq_some_iff leader).mpr
          ((leads.later_iff i).mpr (stays leader leads i collected))
    intro i j collected also
    rw [staysFirst i collected, staysFirst j also]

/-- Only valid budgets and votes decide a superblock, and a single budget, exactly if each budget
that is not valid or holds votes that are not is outvoted wherever it pays, and the budget that
leads at the start of the superblock pays, and stays ahead, at all its supported heights. -/
theorem decidedByValid_iff
    (store : BudgetStore) (params : CChainParams) (masternodes : MasternodeLocal)
    (nTargetHeight : Int) :
    DecidedByValid store params masternodes nTargetHeight ↔
      UnsoundOutvoted store ∧ LeaderStays store params masternodes nTargetHeight := by
  rw [← grabbed_sound_iff store masternodes, ← single_iff]
  constructor
  · intro decided
    exact ⟨fun height budget taken =>
      ⟨decided.valid height budget taken, decided.counted height budget taken⟩, decided.single⟩
  · rintro ⟨sound, single⟩
    exact
      { valid := fun height budget taken => (sound height budget taken).1
        counted := fun height budget taken => (sound height budget taken).2
        single := single }

/-- Two budgets for the superblock at 43200: one of a payment that is no longer valid, two of
its three votes being those of masternodes that are gone, and one of two payments with two
votes, both valid. -/
def oneInvalidBudget : BudgetStore where
  budgets := [
    { hash := 1, fValid := false, nBlockStart := 43200, vecBudgetPayments := [([1], 7)]
      mapVotes := [(1, true), (2, false), (3, false)] },
    { hash := 2, fValid := true, nBlockStart := 43200, vecBudgetPayments := [([2], 5), ([3], 6)]
      mapVotes := [(4, true), (5, true)] }]
  sorted := by decide

/-- The budget that is not valid leads with its three votes, one of them valid, and the second
payment of the superblock is taken from the other budget. -/
theorem oneInvalidBudget_leads :
    (oneInvalidBudget.grabbedBudget 43200).map StoredBudget.fValid = some false ∧
      (oneInvalidBudget.grabbedBudget 43200).map StoredBudget.validVoteCount = some 1 ∧
      ((oneInvalidBudget.onNode ⟨true, 20, 20, [], fun _ => none, none⟩).grabHighestCount
        43200).1 = 3 ∧
      (oneInvalidBudget.onNode ⟨true, 20, 20, [], fun _ => none, none⟩).findBudgetPayments
        CChainParams.main 43200 = [([1], 7), ([3], 6)] ∧
      ¬DecidedByValid oneInvalidBudget CChainParams.main ⟨true, 20, 20, [], fun _ => none, none⟩
        43200 := by
  have invalid : (oneInvalidBudget.grabbedBudget 43200).map StoredBudget.fValid = some false := by
    decide
  refine ⟨invalid, by decide, by decide, by decide, ?_⟩
  intro decided
  rw [Option.map_eq_some_iff] at invalid
  obtain ⟨budget, taken, unset⟩ := invalid
  rw [decided.valid 43200 budget taken] at unset
  cases unset

end BudgetStore

end ColossusCoin
