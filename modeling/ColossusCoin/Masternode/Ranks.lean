import ColossusCoin.Library.TiedSort
import ColossusCoin.Masternode.Announcements
import ColossusCoin.Masternode.BlockHashes
import ColossusCoin.Pow

/-!
# Ranks of masternodes

`GetMasternodeRank` and `GetMasternodeByRank` sort the masternodes by their scores in compact
form and leave the order of equal scores to the sort.  A masternode has one rank in every
order of the list exactly when no two scores are equal, and the one that is found by a rank
has that rank exactly when both functions rank the same masternodes.  What `Check` changes in
the entries is not returned.
-/

namespace ColossusCoin

open KeyedList TiedSort

/-- What a node goes by when it ranks masternodes at a height. -/
structure RankEnv where
  node : MasternodeEnv
  hashing : ScoreHash
  /-- The answer of `GetBlockHash` at the height. -/
  blockHash : Option Uint256
  /-- `IsSporkActive(SPORK_8_MASTERNODE_PAYMENT_ENFORCEMENT)`. -/
  enforcesPayments : Bool

def mnWinnerMinimumAge : Int := 8000

/-- A score, or a time, with the input of a masternode. -/
abbrev ScoredInput := Int × CTxIn

/-- How `std::sort` orders such pairs from high to low, by their first parts. -/
abbrev SortInputs := List ScoredInput → List ScoredInput

namespace RankEnv

variable (env : RankEnv)

/-- `GetCompact` of the score of a masternode. -/
def compactScore (vin : CTxIn) : Int :=
  getCompact (calculateScore env.hashing env.blockHash vin)

/-- The entry is not skipped for its version or its state. -/
def isScored (minProtocol : Int) (fOnlyActive : Bool) (mn : CMasternode) : Bool :=
  minProtocol ≤ mn.protocolVersion && (!fOnlyActive || (mn.check env.node false).isEnabled)

/-- The entry is not skipped for its age. -/
def isOldEnough (mn : CMasternode) : Bool :=
  !env.enforcesPayments || mnWinnerMinimumAge ≤ env.node.adjustedTime - mn.sigTime

/-- The pair of an entry that `GetMasternodeByRank` takes. -/
def scoreOf (minProtocol : Int) (fOnlyActive : Bool) (mn : CMasternode) :
    Option ScoredInput :=
  if env.isScored minProtocol fOnlyActive mn then some (env.compactScore mn.vin, mn.vin)
  else none

/-- The pair of an entry that `GetMasternodeRank` takes. -/
def rankedScoreOf (minProtocol : Int) (fOnlyActive : Bool) (mn : CMasternode) :
    Option ScoredInput :=
  if env.isOldEnough mn then env.scoreOf minProtocol fOnlyActive mn else none

end RankEnv

namespace CMasternodeMan

def getMasternodeRank (sort : SortInputs) (env : RankEnv) (man : CMasternodeMan)
    (vin : CTxIn) (minProtocol : Int) (fOnlyActive : Bool) : Int :=
  if env.blockHash = none then -1
  else
    position (fun s => s.2.prevout = vin.prevout) 0
      (sort (man.vMasternodes.filterMap (env.rankedScoreOf minProtocol fOnlyActive)))

def getMasternodeByRank (sort : SortInputs) (env : RankEnv) (man : CMasternodeMan)
    (nRank minProtocol : Int) (fOnlyActive : Bool) : Option CMasternode :=
  match atPosition nRank 0
      (sort (man.vMasternodes.filterMap (env.scoreOf minProtocol fOnlyActive))) with
  | none => none
  | some s => man.find s.2

end CMasternodeMan

section Inputs

variable {man other : CMasternodeMan} {image : CMasternode → Option ScoredInput}

theorem outpoints_sublist
    (inputs : ∀ mn s, image mn = some s → s.2 = mn.vin)
    (entries : List CMasternode) :
    ((entries.filterMap image).map fun s => s.2.prevout).Sublist
      (entries.map CMasternode.prevout) := by
  induction entries with
  | nil => exact List.Sublist.slnil
  | cons mn rest ih =>
    rw [List.map_cons]
    cases here : image mn with
    | none =>
      rw [List.filterMap_cons_none here]
      exact ih.cons mn.prevout
    | some s =>
      have same : s.2.prevout = mn.prevout := congrArg CTxIn.prevout (inputs mn s here)
      rw [List.filterMap_cons_some here, List.map_cons, same]
      exact ih.cons_cons mn.prevout

theorem entriesDistinct
    (distinct : man.OutpointsDistinct) :
    Distinct CMasternode.prevout man.vMasternodes :=
  (distinct_map_iff prevout_announced).mp distinct

section

variable (distinct : man.OutpointsDistinct)
include distinct

theorem outpoints_nodup
    (inputs : ∀ mn s, image mn = some s → s.2 = mn.vin) :
    ((man.vMasternodes.filterMap image).map fun s => s.2.prevout).Nodup :=
  List.Sublist.nodup (outpoints_sublist inputs man.vMasternodes) (entriesDistinct distinct)

theorem find_eq_some_iff
    {mn : CMasternode} :
    man.find vin = some mn ↔ mn ∈ man.vMasternodes ∧ mn.prevout = vin.prevout :=
  (entriesDistinct distinct).find_eq_some_iff

theorem find_perm
    (perm : other.vMasternodes.Perm man.vMasternodes)
    (vin : CTxIn) :
    other.find vin = man.find vin :=
  (entriesDistinct distinct).find_perm perm

end

end Inputs

namespace RankEnv

variable {env : RankEnv}

theorem input_of_scoreOf
    (here : env.scoreOf minProtocol fOnlyActive mn = some s) :
    s.2 = mn.vin := by
  unfold scoreOf at here
  split_ifs at here
  cases here
  rfl

theorem input_of_rankedScoreOf
    (here : env.rankedScoreOf minProtocol fOnlyActive mn = some s) :
    s.2 = mn.vin := by
  unfold rankedScoreOf at here
  split_ifs at here
  exact input_of_scoreOf here

end RankEnv

/-- Every masternode has the same rank in every order of the list, whatever the sort, if and
only if the block hash is not found or no two scores are equal. -/
theorem rank_determined_iff
    {man : CMasternodeMan}
    (distinct : man.OutpointsDistinct)
    (env : RankEnv) (minProtocol : Int) (fOnlyActive : Bool) :
    (∀ sort, SortsDescending Prod.fst sort → ∀ other : CMasternodeMan,
        other.vMasternodes.Perm man.vMasternodes → ∀ vin,
          other.getMasternodeRank sort env vin minProtocol fOnlyActive =
            man.getMasternodeRank sort env vin minProtocol fOnlyActive) ↔
      (env.blockHash = none ∨
        ((man.vMasternodes.filterMap (env.rankedScoreOf minProtocol fOnlyActive)).map
          Prod.fst).Nodup) := by
  unfold CMasternodeMan.getMasternodeRank
  by_cases unknown : env.blockHash = none
  · simp [unknown]
  · have labels := @outpoints_nodup man (env.rankedScoreOf minProtocol fOnlyActive) distinct
      fun _ _ => RankEnv.input_of_rankedScoreOf
    have determined := @position_determined_iff ScoredInput Prod.fst COutPoint CMasternode _
      (fun s => s.2.prevout) (env.rankedScoreOf minProtocol fOnlyActive) man.vMasternodes labels
    simp only [unknown, if_false, false_or]
    rw [← determined]
    refine Iff.intro ?_ ?_
    · intro same sort sorts entries perm wanted
      exact same sort sorts { man with vMasternodes := entries } perm
        { CTxIn.empty with prevout := wanted }
    · intro same sort sorts other perm vin
      exact same sort sorts other.vMasternodes perm vin.prevout

section ByRank

variable {man : CMasternodeMan}

/-- `GetMasternodeByRank` finds an entry exactly at the position that it has among the
masternodes it takes. -/
theorem getMasternodeByRank_iff
    (distinct : man.OutpointsDistinct)
    (sorts : SortsDescending Prod.fst sort)
    (listed : mn ∈ man.vMasternodes)
    (isRank : 0 < nRank) :
    man.getMasternodeByRank sort env nRank minProtocol fOnlyActive = some mn ↔
      position (fun s => s.2.prevout = mn.vin.prevout) 0
        (sort (man.vMasternodes.filterMap (env.scoreOf minProtocol fOnlyActive))) = nRank := by
  have labels : ((sort (man.vMasternodes.filterMap
      (env.scoreOf minProtocol fOnlyActive))).map fun s => s.2.prevout).Nodup :=
    ((sorts.perm _).map _).nodup_iff.mpr
      (outpoints_nodup distinct fun _ _ => RankEnv.input_of_scoreOf)
  unfold CMasternodeMan.getMasternodeByRank
  generalize sort (man.vMasternodes.filterMap
    (env.scoreOf minProtocol fOnlyActive)) = sortedList at labels ⊢
  constructor
  · intro found
    cases here : atPosition nRank 0 sortedList with
    | none =>
      rw [here] at found
      cases found
    | some s =>
      rw [here] at found
      obtain ⟨pre, post, split, place⟩ := split_of_atPosition here
      have outpoint : mn.vin.prevout = s.2.prevout := ((find_eq_some_iff distinct).mp found).2
      rw [split] at labels
      rw [split, outpoint, position_of_split labels, place]
      omega
  · intro place
    have exists_input : ∃ s ∈ sortedList, s.2.prevout = mn.vin.prevout := by
      by_contra absent
      push Not at absent
      rw [position_absent fun x member => decide_eq_false (absent x member)] at place
      omega
    obtain ⟨s, member, outpoint⟩ := exists_input
    obtain ⟨pre, post, split⟩ := List.append_of_mem member
    rw [split] at labels place ⊢
    rw [← outpoint, position_of_split labels] at place
    have rank : nRank = 0 + pre.length + 1 := by omega
    rw [rank, atPosition_split]
    exact (find_eq_some_iff distinct).mpr (And.intro listed outpoint.symm)

/-- The masternode that is found by a rank is the one of that rank, whatever the sort, if
and only if every masternode that is taken there is old enough to be ranked, at a height
whose block hash is found. -/
theorem byRank_iff
    (distinct : man.OutpointsDistinct)
    (env : RankEnv) (minProtocol : Int) (fOnlyActive : Bool) :
    (∀ sort, SortsDescending Prod.fst sort → ∀ nRank, 0 < nRank → ∀ mn ∈ man.vMasternodes,
        (man.getMasternodeByRank sort env nRank minProtocol fOnlyActive = some mn ↔
          man.getMasternodeRank sort env mn.vin minProtocol fOnlyActive = nRank)) ↔
      ∀ mn ∈ man.vMasternodes, env.isScored minProtocol fOnlyActive mn = true →
        env.blockHash ≠ none ∧ env.isOldEnough mn = true := by
  constructor
  · intro agree mn listed scored
    have sorts := sortsDescending_insertionSort (Prod.fst : ScoredInput → Int)
    have member : (env.compactScore mn.vin, mn.vin) ∈ insertionSort Prod.fst
        (man.vMasternodes.filterMap (env.scoreOf minProtocol fOnlyActive)) := by
      rw [(sorts.perm _).mem_iff, List.mem_filterMap]
      exact ⟨mn, listed, if_pos scored⟩
    obtain ⟨pre, post, split⟩ := List.append_of_mem member
    have found : man.getMasternodeByRank (insertionSort Prod.fst) env (0 + pre.length + 1)
        minProtocol fOnlyActive = some mn := by
      unfold CMasternodeMan.getMasternodeByRank
      rw [split, atPosition_split]
      exact (find_eq_some_iff distinct).mpr (And.intro listed rfl)
    have rank := (agree _ sorts _ (by omega) mn listed).mp found
    unfold CMasternodeMan.getMasternodeRank at rank
    have known : env.blockHash ≠ none := by
      intro unknown
      rw [if_pos unknown] at rank
      omega
    refine And.intro known ?_
    rw [if_neg known] at rank
    by_contra young
    rw [position_absent] at rank
    · omega
    · intro x member
      refine decide_eq_false fun same => ?_
      obtain ⟨entry, isEntry, here⟩ := List.mem_filterMap.mp ((sorts.perm _).mem_iff.mp member)
      have input := RankEnv.input_of_rankedScoreOf here
      have itself : entry = mn := (entriesDistinct distinct).eq_of_key isEntry listed
        ((congrArg CTxIn.prevout input).symm.trans same)
      rw [itself] at here
      unfold RankEnv.rankedScoreOf at here
      rw [if_neg young] at here
      cases here
  · intro allRanked sort sorts nRank isRank mn listed
    rw [getMasternodeByRank_iff distinct sorts listed isRank]
    have same : man.vMasternodes.filterMap (env.scoreOf minProtocol fOnlyActive) =
        man.vMasternodes.filterMap (env.rankedScoreOf minProtocol fOnlyActive) := by
      refine List.filterMap_congr fun entry isEntry => ?_
      unfold RankEnv.rankedScoreOf RankEnv.scoreOf
      by_cases scored : env.isScored minProtocol fOnlyActive entry = true
      · rw [if_pos (allRanked entry isEntry scored).2]
      · rw [if_neg scored, ite_self]
    unfold CMasternodeMan.getMasternodeRank
    by_cases unknown : env.blockHash = none
    · have empty : man.vMasternodes.filterMap (env.scoreOf minProtocol fOnlyActive) = [] := by
        rw [List.filterMap_eq_nil_iff]
        intro entry isEntry
        exact if_neg fun scored => (allRanked entry isEntry scored).1 unknown
      have nothing : sort [] = [] := (sorts.perm []).eq_nil
      rw [if_pos unknown, empty, nothing]
      rfl
    · rw [if_neg unknown, same]

end ByRank

end ColossusCoin
