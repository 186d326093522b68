import ColossusCoin.Masternode.PayeeVotes
import ColossusCoin.Masternode.Ranks

/-!
# Which masternode is paid next

`GetNextMasternodeInQueueForPayment` sorts the masternodes that may be paid by the time since
their last payment and picks the one with the highest score among the first tenth.  Both the
cut and equal scores leave room for the order of the list, unless one masternode is among the
first in every order and beats all others that may be.  The times are sums of whole numbers,
but for the age that a masternode must have, which the source computes in floating point.
-/

namespace ColossusCoin

open KeyedList TiedSort

namespace CMasternodeBlockPayees

/-- `GetPayee`: the first payee with the most votes. -/
def getPayee (payees : CMasternodeBlockPayees) : Option CScript :=
  (payees.vecPayments.foldl (fun best payee =>
    if best.2 < payee.nVotes then (some payee.scriptPubKey, payee.nVotes) else best)
    (none, -1)).1

def hasPayeeWithVotes (payees : CMasternodeBlockPayees) (payee : CScript) (nVotesReq : Int) :
    Bool :=
  payees.vecPayments.any fun listed =>
    nVotesReq ≤ listed.nVotes && listed.scriptPubKey == payee

end CMasternodeBlockPayees

/-- What a node goes by when it looks for the masternode to pay. -/
structure QueueEnv extends RankEnv where
  net : MasternodeNet
  /-- The heights and the times of the blocks of the active chain above genesis, the tip
  first. -/
  activeBlocks : List (Int × Int)
  mapMasternodeBlocks : Int → Option CMasternodeBlockPayees
  /-- The hash of an input and a signature time. -/
  hashInput : CTxIn → Int → Uint256
  /-- `sigTime + (nMnCount * 2.6 * 60) > GetAdjustedTime()`, in floating point. -/
  isTooNew : Int → Nat → Bool

namespace QueueEnv

variable (env : QueueEnv)

def countEnabled (man : CMasternodeMan) : Nat :=
  man.vMasternodes.countP fun mn =>
    env.node.nMinProtocol ≤ mn.protocolVersion && (mn.check env.node false).isEnabled

/-- The script of the payee of an entry. -/
def payeeOf (mn : CMasternode) : CScript :=
  env.net.getScriptForDestination mn.pubKeyCollateralAddress

/-- `IsScheduled`: in one of the next eight blocks, or in the tip. -/
def isScheduled (mn : CMasternode) (nNotBlockHeight : Int) : Bool :=
  env.node.lockMain && 0 ≤ env.node.chainHeight &&
    (List.range 9).any fun ahead =>
      env.node.chainHeight + ahead != nNotBlockHeight &&
        (env.mapMasternodeBlocks (env.node.chainHeight + ahead)).any fun payees =>
          payees.getPayee == some (env.payeeOf mn)

/-- `GetLastPaid`: the time of the last block whose payee the entry is with two votes, with
an offset that tells masternodes apart. -/
def getLastPaid (man : CMasternodeMan) (mn : CMasternode) : Int :=
  let nOffset := getCompact (env.hashInput mn.vin mn.sigTime) % 150
  let nMnCount := env.countEnabled man * 5 / 4
  match (env.activeBlocks.take nMnCount).find? fun block =>
      (env.mapMasternodeBlocks block.1).any fun payees =>
        payees.hasPayeeWithVotes (env.payeeOf mn) 2 with
  | none => 0
  | some block => block.2 + nOffset

def secondsSincePayment (man : CMasternodeMan) (mn : CMasternode) : Int :=
  let sec := env.node.adjustedTime - env.getLastPaid man mn
  let month := 60 * 60 * 24 * 30
  if sec < month then sec else month + getCompact (env.hashInput mn.vin mn.sigTime)

def getMasternodeInputAge (mn : CMasternode) : Int :=
  if env.node.chainHeight < 0 then 0
  else if mn.cacheInputAge = 0 then env.node.getInputAge mn.vin
  else mn.cacheInputAge + (env.node.chainHeight - mn.cacheInputAgeBlock)

/-- The pair of an entry that may be paid: it is enabled, not scheduled, not too new and has
as many confirmations as there are masternodes. -/
def lastPaidOf (man : CMasternodeMan) (nBlockHeight : Int) (fFilterSigTime : Bool)
    (mn : CMasternode) : Option ScoredInput :=
  let nMnCount := env.countEnabled man
  if !(mn.check env.node false).isEnabled then none
  else if mn.protocolVersion < env.node.nMinProtocol then none
  else if env.isScheduled mn nBlockHeight then none
  else if fFilterSigTime && env.isTooNew mn.sigTime nMnCount then none
  else if env.getMasternodeInputAge mn < nMnCount then none
  else some (env.secondsSincePayment man mn, mn.vin)

/-- New masternodes are left out unless too few others are left. -/
def filtersSigTime (man : CMasternodeMan) (nBlockHeight : Int) (fFilterSigTime : Bool) :
    Bool :=
  fFilterSigTime &&
    !((man.vMasternodes.filterMap (env.lastPaidOf man nBlockHeight true)).length <
      env.countEnabled man / 3)

/-- `vecMasternodeLastPaid`, of the second call where the first left too few. -/
def vecMasternodeLastPaid (man : CMasternodeMan) (nBlockHeight : Int)
    (fFilterSigTime : Bool) : List ScoredInput :=
  man.vMasternodes.filterMap
    (env.lastPaidOf man nBlockHeight (env.filtersSigTime man nBlockHeight fFilterSigTime))

/-- `CalculateScore` of an input. -/
def scoreOfInput (vin : CTxIn) : Uint256 :=
  calculateScore env.hashing env.blockHash vin

end QueueEnv

/-- The loop that looks at the first tenth of the network. -/
def payLoop (find : CTxIn → Option CMasternode) (score : CTxIn → Uint256)
    (nTenthNetwork : Nat) :
    Nat → Uint256 → Option CMasternode → List ScoredInput → Option CMasternode
  | _, _, pBestMasternode, [] => pBestMasternode
  | nCountTenth, nHigh, pBestMasternode, s :: rest =>
    match find s.2 with
    | none => pBestMasternode
    | some pmn =>
      let n := score pmn.vin
      if nHigh < n then
        if nTenthNetwork ≤ nCountTenth + 1 then some pmn
        else payLoop find score nTenthNetwork (nCountTenth + 1) n (some pmn) rest
      else if nTenthNetwork ≤ nCountTenth + 1 then pBestMasternode
      else payLoop find score nTenthNetwork (nCountTenth + 1) nHigh pBestMasternode rest

/-- `GetNextMasternodeInQueueForPayment`, with `nCount`. -/
def CMasternodeMan.getNextMasternodeInQueueForPayment (sort : SortInputs) (env : QueueEnv)
    (man : CMasternodeMan) (nBlockHeight : Int) (fFilterSigTime : Bool) :
    Option CMasternode × Nat :=
  let vec := env.vecMasternodeLastPaid man nBlockHeight fFilterSigTime
  (payLoop man.find env.scoreOfInput (env.countEnabled man / 10) 0 0 none (sort vec),
    vec.length)

section Loop

variable {find : CTxIn → Option CMasternode} {score : CTxIn → Uint256}

/-- With every input found, the loop finds the best of the first tenth, and looks at one at
least. -/
theorem payLoop_eq
    {elements : List ScoredInput} {best : Option ScoredInput} {nCountTenth nHigh : Nat}
    (finds : ∀ s ∈ elements, ∃ pmn, find s.2 = some pmn ∧ pmn.vin = s.2) :
    payLoop find score nTenthNetwork nCountTenth nHigh (best.bind fun s => find s.2) elements =
      (pickBest (fun s => score s.2) nHigh best
        (elements.take (max 1 (nTenthNetwork - nCountTenth)))).bind fun s => find s.2 := by
  induction elements generalizing best nCountTenth nHigh with
  | nil => rw [List.take_nil]; rfl
  | cons s rest ih =>
    obtain ⟨pmn, found, same⟩ := finds s List.mem_cons_self
    have later := fun t member => finds t (List.mem_cons_of_mem s member)
    rw [payLoop, found]
    dsimp only
    rw [same]
    by_cases stops : nTenthNetwork ≤ nCountTenth + 1
    · have one : max 1 (nTenthNetwork - nCountTenth) = 1 := by omega
      rw [one, List.take_succ_cons, List.take_zero, pickBest]
      split_ifs
      · exact found.symm
      · rfl
    · have more : max 1 (nTenthNetwork - nCountTenth) =
          max 1 (nTenthNetwork - (nCountTenth + 1)) + 1 := by
        omega
      rw [more, List.take_succ_cons, pickBest]
      split_ifs
      · rw [← ih later]
        exact congrArg
          (fun entry => payLoop find score nTenthNetwork (nCountTenth + 1) (score s.2)
            entry rest) found.symm
      · exact ih later

end Loop

section Queue

variable {env : QueueEnv} {man : CMasternodeMan}

theorem countEnabled_perm
    (perm : other.vMasternodes.Perm man.vMasternodes) :
    env.countEnabled other = env.countEnabled man :=
  perm.countP_eq _

/-- What an entry goes into the queue with depends on the list through the count alone. -/
theorem lastPaidOf_perm
    (perm : other.vMasternodes.Perm man.vMasternodes) :
    env.lastPaidOf other nBlockHeight fFilterSigTime =
      env.lastPaidOf man nBlockHeight fFilterSigTime := by
  funext mn
  have count := @countEnabled_perm env man other perm
  unfold QueueEnv.lastPaidOf QueueEnv.secondsSincePayment QueueEnv.getLastPaid
  rw [count]

theorem filtersSigTime_perm
    (perm : other.vMasternodes.Perm man.vMasternodes) :
    env.filtersSigTime other nBlockHeight fFilterSigTime =
      env.filtersSigTime man nBlockHeight fFilterSigTime := by
  unfold QueueEnv.filtersSigTime
  rw [lastPaidOf_perm perm, countEnabled_perm perm, (perm.filterMap _).length_eq]

theorem input_of_lastPaidOf
    {mn : CMasternode} {s : ScoredInput}
    (here : env.lastPaidOf man nBlockHeight fFilterSigTime mn = some s) :
    s.2 = mn.vin := by
  unfold QueueEnv.lastPaidOf at here
  dsimp only at here
  split_ifs at here
  cases here
  rfl

/-- What is in the queue is the pair of the entry that is found by its input. -/
theorem find_of_mem_queue
    (distinct : man.OutpointsDistinct)
    {s : ScoredInput}
    (member : s ∈ env.vecMasternodeLastPaid man nBlockHeight fFilterSigTime) :
    ∃ pmn, man.find s.2 = some pmn ∧
      env.lastPaidOf man nBlockHeight (env.filtersSigTime man nBlockHeight fFilterSigTime)
        pmn = some s := by
  obtain ⟨pmn, listed, here⟩ := List.mem_filterMap.mp member
  have input := input_of_lastPaidOf here
  refine ⟨pmn, (find_eq_some_iff distinct).mpr (And.intro listed ?_), here⟩
  rw [input]
  rfl

/-- What is picked from a sorted queue. -/
def pickNext (sort : SortInputs) (env : QueueEnv) (man : CMasternodeMan)
    (nBlockHeight : Int) (fFilterSigTime : Bool) : Option ScoredInput :=
  pickBest (fun s => env.scoreOfInput s.2) 0 none
    ((sort (env.vecMasternodeLastPaid man nBlockHeight fFilterSigTime)).take
      (max 1 (env.countEnabled man / 10)))

theorem mem_queue_of_pickNext
    (sorts : SortsDescending Prod.fst sort)
    (picked : pickNext sort env man nBlockHeight fFilterSigTime = some s) :
    s ∈ env.vecMasternodeLastPaid man nBlockHeight fFilterSigTime :=
  (sorts.perm _).mem_iff.mp (List.mem_of_mem_take ((mem_of_pickBest picked).resolve_left nofun))

section

variable (distinct : man.OutpointsDistinct)
include distinct

theorem getNext_eq
    (sorts : SortsDescending Prod.fst sort) :
    (man.getNextMasternodeInQueueForPayment sort env nBlockHeight fFilterSigTime).1 =
      (pickNext sort env man nBlockHeight fFilterSigTime).bind fun s => man.find s.2 := by
  have finds : ∀ s ∈ sort (env.vecMasternodeLastPaid man nBlockHeight fFilterSigTime),
      ∃ pmn, man.find s.2 = some pmn ∧ pmn.vin = s.2 := by
    intro s member
    obtain ⟨pmn, found, here⟩ := find_of_mem_queue distinct ((sorts.perm _).mem_iff.mp member)
    exact ⟨pmn, found, (input_of_lastPaidOf here).symm⟩
  exact @payLoop_eq man.find env.scoreOfInput (env.countEnabled man / 10) _ none 0 0 finds

/-- Different pairs of the queue have different entries. -/
theorem eq_of_bind_find
    (firstIn : ∀ s, first = some s →
      s ∈ env.vecMasternodeLastPaid man nBlockHeight fFilterSigTime)
    (secondIn : ∀ s, second = some s →
      s ∈ env.vecMasternodeLastPaid man nBlockHeight fFilterSigTime)
    (same : (first.bind fun s => man.find s.2) = second.bind fun s => man.find s.2) :
    first = second := by
  cases first with
  | none =>
    cases second with
    | none => rfl
    | some t =>
      obtain ⟨pmn, found, _⟩ := find_of_mem_queue distinct (secondIn t rfl)
      rw [Option.bind_none, Option.bind_some, found] at same
      cases same
  | some s =>
    obtain ⟨pmn, found, here⟩ := find_of_mem_queue distinct (firstIn s rfl)
    rw [Option.bind_some, found] at same
    cases second with
    | none => cases same
    | some t =>
      obtain ⟨other, otherFound, there⟩ := find_of_mem_queue distinct (secondIn t rfl)
      rw [Option.bind_some, otherFound] at same
      rw [← Option.some.inj same, here] at there
      exact there

/-- The masternode that is paid next is the same in every order of the list, whatever the
sort, if and only if it is decided. -/
theorem queue_determined_iff
    (env : QueueEnv) (nBlockHeight : Int) (fFilterSigTime : Bool) :
    (∀ sort, SortsDescending Prod.fst sort → ∀ other : CMasternodeMan,
        other.vMasternodes.Perm man.vMasternodes →
          (other.getNextMasternodeInQueueForPayment sort env nBlockHeight fFilterSigTime).1 =
            (man.getNextMasternodeInQueueForPayment sort env nBlockHeight
              fFilterSigTime).1) ↔
      Decided Prod.fst (fun s => env.scoreOfInput s.2) (max 1 (env.countEnabled man / 10))
        (env.vecMasternodeLastPaid man nBlockHeight fFilterSigTime) := by
  have nodup : (env.vecMasternodeLastPaid man nBlockHeight fFilterSigTime).Nodup :=
    (outpoints_nodup distinct fun _ _ => input_of_lastPaidOf).of_map
  have picks := @pick_determined_iff ScoredInput Prod.fst (fun s => env.scoreOfInput s.2)
    (max 1 (env.countEnabled man / 10)) CMasternode
    (env.lastPaidOf man nBlockHeight (env.filtersSigTime man nBlockHeight fFilterSigTime))
    man.vMasternodes _ nodup
  have pickOther : ∀ sort : SortInputs, ∀ other : CMasternodeMan,
      other.vMasternodes.Perm man.vMasternodes →
        pickNext sort env other nBlockHeight fFilterSigTime =
          pickBest (fun s => env.scoreOfInput s.2) 0 none
            ((sort (other.vMasternodes.filterMap (env.lastPaidOf man nBlockHeight
              (env.filtersSigTime man nBlockHeight fFilterSigTime)))).take
                (max 1 (env.countEnabled man / 10))) := by
    intro sort other perm
    unfold pickNext QueueEnv.vecMasternodeLastPaid
    rw [filtersSigTime_perm perm, lastPaidOf_perm perm, countEnabled_perm perm]
  have otherDistinct : ∀ other : CMasternodeMan, other.vMasternodes.Perm man.vMasternodes →
      other.OutpointsDistinct := fun other perm =>
    ((perm.map CMasternode.announced).map Announcement.prevout).nodup_iff.mpr distinct
  have sameNext : ∀ sort : SortInputs, SortsDescending Prod.fst sort →
      ∀ other : CMasternodeMan, other.vMasternodes.Perm man.vMasternodes →
        ((other.getNextMasternodeInQueueForPayment sort env nBlockHeight fFilterSigTime).1 =
            (man.getNextMasternodeInQueueForPayment sort env nBlockHeight fFilterSigTime).1 ↔
          pickNext sort env other nBlockHeight fFilterSigTime =
            pickNext sort env man nBlockHeight fFilterSigTime) := by
    intro sort sorts other perm
    have finds : (fun s : ScoredInput => other.find s.2) = fun s => man.find s.2 :=
      funext fun s => find_perm distinct perm s.2
    rw [getNext_eq distinct sorts, getNext_eq (otherDistinct other perm) sorts, finds]
    refine Iff.intro ?_ fun same => by rw [same]
    refine eq_of_bind_find distinct ?_ fun s => mem_queue_of_pickNext sorts
    intro s picked
    have member := mem_queue_of_pickNext sorts picked
    unfold QueueEnv.vecMasternodeLastPaid at member ⊢
    rw [filtersSigTime_perm perm, lastPaidOf_perm perm] at member
    exact (perm.filterMap _).mem_iff.mp member
  refine Iff.trans ?_ picks
  refine Iff.intro ?_ ?_
  · intro same sort sorts entries perm
    have next := (sameNext sort sorts { man with vMasternodes := entries } perm).mp
      (same sort sorts { man with vMasternodes := entries } perm)
    rw [pickOther sort _ perm] at next
    exact next
  · intro same sort sorts other perm
    rw [sameNext sort sorts other perm, pickOther sort other perm]
    exact same sort sorts other.vMasternodes perm

end

end Queue

/-- The ranks, the masternodes of the ranks and the masternode that is paid next do not
depend on the order of the list, nor on the sort, if and only if no two scores of ranked
masternodes are equal, every masternode that is found by a rank is old enough to be ranked,
and the masternode that is paid next is decided. -/
theorem selection_determined_iff
    (man : CMasternodeMan)
    (distinct : man.OutpointsDistinct)
    (env : RankEnv) (minProtocol : Int) (fOnlyActive : Bool)
    (queueEnv : QueueEnv) (nBlockHeight : Int) (fFilterSigTime : Bool) :
    ((∀ sort, SortsDescending Prod.fst sort → ∀ other : CMasternodeMan,
          other.vMasternodes.Perm man.vMasternodes → ∀ vin,
            other.getMasternodeRank sort env vin minProtocol fOnlyActive =
              man.getMasternodeRank sort env vin minProtocol fOnlyActive) ∧
        (∀ sort, SortsDescending Prod.fst sort → ∀ nRank, 0 < nRank →
          ∀ mn ∈ man.vMasternodes,
            (man.getMasternodeByRank sort env nRank minProtocol fOnlyActive = some mn ↔
              man.getMasternodeRank sort env mn.vin minProtocol fOnlyActive = nRank)) ∧
        ∀ sort, SortsDescending Prod.fst sort → ∀ other : CMasternodeMan,
          other.vMasternodes.Perm man.vMasternodes →
            (other.getNextMasternodeInQueueForPayment sort queueEnv nBlockHeight
                fFilterSigTime).1 =
              (man.getNextMasternodeInQueueForPayment sort queueEnv nBlockHeight
                fFilterSigTime).1) ↔
      (env.blockHash = none ∨
          ((man.vMasternodes.filterMap (env.rankedScoreOf minProtocol fOnlyActive)).map
            Prod.fst).Nodup) ∧
        (∀ mn ∈ man.vMasternodes, env.isScored minProtocol fOnlyActive mn = true →
          env.blockHash ≠ none ∧ env.isOldEnough mn = true) ∧
        Decided Prod.fst (fun s => queueEnv.scoreOfInput s.2)
          (max 1 (queueEnv.countEnabled man / 10))
          (queueEnv.vecMasternodeLastPaid man nBlockHeight fFilterSigTime) :=
  and_congr (rank_determined_iff distinct env minProtocol fOnlyActive)
    (and_congr (byRank_iff distinct env minProtocol fOnlyActive)
      (queue_determined_iff distinct queueEnv nBlockHeight fFilterSigTime))

/-- A node that scores every masternode alike. -/
def tiedRankEnv : RankEnv where
  node := openEnv 10000
  hashing := ⟨fun _ => 0, fun _ _ => 5⟩
  blockHash := some 1
  enforcesPayments := false

/-- The same node, which pays by no votes and finds nobody too new. -/
def tiedQueueEnv : QueueEnv where
  toRankEnv := tiedRankEnv
  net := openNet
  activeBlocks := []
  mapMasternodeBlocks _ := none
  hashInput _ _ := 0
  isTooNew _ _ := false

/-- An entry at an output of the transaction of both collaterals. -/
def tiedEntry (n : Nat) : CMasternode :=
  let vin := { CTxIn.empty with prevout := ⟨7, n⟩ }
  .ofBroadcast { openBroadcast 9900 with vin := vin }

/-- A list of such entries. -/
def tiedList (outputs : List Nat) : CMasternodeMan :=
  { CMasternodeMan.empty with vMasternodes := outputs.map tiedEntry }

/-- A single masternode has one rank and is paid next. -/
theorem selection_determined_iff_single :
    (tiedList [0]).getMasternodeByRank (insertionSort Prod.fst) tiedRankEnv 1 70000 true =
        some (tiedEntry 0) ↔
      (tiedList [0]).getMasternodeRank (insertionSort Prod.fst) tiedRankEnv (tiedEntry 0).vin
        70000 true = 1 := by
  refine ((selection_determined_iff (tiedList [0]) (List.nodup_singleton _) tiedRankEnv 70000 true
    tiedQueueEnv 119 false).mpr ⟨by decide, by decide, ?_⟩).2.1 (insertionSort Prod.fst)
      (sortsDescending_insertionSort Prod.fst) 1 (by decide) (tiedEntry 0)
      (List.mem_singleton_self _)
  refine Or.inr ⟨_, List.mem_singleton_self _, by decide, ?_⟩
  intro c contender apart
  exact absurd (List.mem_singleton.mp contender.1) apart

/-- The masternode that comes first has the first rank and is paid, in either order. -/
theorem tied_masternodes_by_order :
    SortsDescending Prod.fst (insertionSort (Prod.fst : ScoredInput → Int)) ∧
      (tiedList [1, 0]).vMasternodes.Perm (tiedList [0, 1]).vMasternodes ∧
      (tiedList [0, 1]).getMasternodeRank (insertionSort Prod.fst) tiedRankEnv
        (tiedEntry 0).vin 70000 true = 1 ∧
      (tiedList [1, 0]).getMasternodeRank (insertionSort Prod.fst) tiedRankEnv
        (tiedEntry 0).vin 70000 true = 2 ∧
      ((tiedList [0, 1]).getNextMasternodeInQueueForPayment (insertionSort Prod.fst)
        tiedQueueEnv 119 false).1 = some (tiedEntry 0) ∧
      ((tiedList [1, 0]).getNextMasternodeInQueueForPayment (insertionSort Prod.fst)
        tiedQueueEnv 119 false).1 = some (tiedEntry 1) :=
  ⟨sortsDescending_insertionSort Prod.fst, List.Perm.swap _ _ [], by decide, by decide,
    by decide, by decide⟩

end ColossusCoin
