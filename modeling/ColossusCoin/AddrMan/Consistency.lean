import ColossusCoin.AddrMan.Tables

/-!
# Consistency of the address manager

The indexes, the tables and the times of the entries agree after every operation, and no assertion
fails.  Moving an entry to the tried buckets may evict another one to the new buckets, which may
delete a third one, whose place in the random order is filled by the last.
-/

namespace ColossusCoin

open Occupancy

/-- The times of an entry are those that the check asks for.  Last tries are known not to be
negative only where all attempts were made at such times. -/
def CAddrInfo.Timed (nonneg : Prop) (info : CAddrInfo) : Prop :=
  ¬info.nLastSuccess < 0 ∧ (info.fInTried = true → info.nLastSuccess ≠ 0) ∧
    (nonneg → ¬info.nLastTry < 0)

namespace CAddrMan

/-- Everything agrees, where only these new entries may be without references, and so many new
entries are not counted. -/
structure Loose (hash : BucketHash) (nonneg : Prop) (pending : Set Nat) (uncounted : Int)
    (man : CAddrMan) : Prop where
  indexed : man.Indexed
  tabled : man.Tabled hash pending uncounted
  timed : ∀ nId info, man.mapInfo.get? nId = some info → info.Timed nonneg

/-- Everything agrees. -/
abbrev Consistent (hash : BucketHash) (nonneg : Prop) (man : CAddrMan) : Prop :=
  man.Loose hash nonneg ∅ 0

/-- The entry of an identifier is the same, up to its position. -/
def SameEntry (man next : CAddrMan) (nId : Nat) : Prop :=
  (next.mapInfo.get? nId).map CAddrInfo.unplaced = (man.mapInfo.get? nId).map CAddrInfo.unplaced

variable {hash : BucketHash}
variable {man next : CAddrMan}

theorem SameEntry.found
    (same : SameEntry man next nId)
    (found : man.mapInfo.get? nId = some info) :
    ∃ moved, next.mapInfo.get? nId = some moved ∧ moved.unplaced = info.unplaced := by
  have whole : (next.mapInfo.get? nId).map CAddrInfo.unplaced = some info.unplaced := by
    rw [same, found, Option.map_some]
  exact Option.map_eq_some_iff.mp whole

theorem SameEntry.of_insert
    (mapInfo : next.mapInfo = man.mapInfo.insert nId info)
    (apart : other ≠ nId) :
    SameEntry man next other := by
  rw [SameEntry, mapInfo, SortedMap.get?_insert, if_neg apart]

theorem SameEntry.trans
    (first : SameEntry man next nId)
    (second : SameEntry next last nId) :
    SameEntry man last nId :=
  Eq.trans second first

/-- The times hold of the entries when they hold of the one that was put in. -/
theorem timed_of_insert
    (timed : ∀ nId info, man.mapInfo.get? nId = some info → info.Timed nonneg)
    (mapInfo : next.mapInfo = man.mapInfo.insert nId info)
    (here : info.Timed nonneg) :
    ∀ nId info, next.mapInfo.get? nId = some info → info.Timed nonneg := by
  intro other entry found
  rw [mapInfo, SortedMap.get?_insert] at found
  split_ifs at found
  · cases found
    exact here
  · exact timed other entry found

namespace Loose

/-- An entry with another one in its place, that differs in times and services only. -/
theorem setInfo
    (loose : man.Loose hash nonneg pending uncounted)
    (found : man.mapInfo.get? nId = some old)
    (service : info.service = old.service)
    (fInTried : info.fInTried = old.fInTried)
    (nRefCount : info.nRefCount = old.nRefCount)
    (nRandomPos : info.nRandomPos = old.nRandomPos)
    (timed : info.Timed nonneg) :
    (man.setInfo nId info).Loose hash nonneg pending uncounted where
  indexed := loose.indexed.setInfo found (congrArg NetService.addr service) nRandomPos
  tabled := loose.tabled.setInfo found service fInTried nRefCount
  timed := timed_of_insert loose.timed rfl timed

/-- `SwapRandom` keeps everything, and moves nothing but positions. -/
theorem swapRandom
    (loose : man.Loose hash nonneg pending uncounted)
    (first : man.vRandom[nRndPos1]? = some nId1)
    (second : man.vRandom[nRndPos2]? = some nId2) :
    ∃ swapped, man.swapRandom nRndPos1 nRndPos2 = some swapped ∧
      swapped.Loose hash nonneg pending uncounted ∧
      swapped.vRandom.length = man.vRandom.length ∧ swapped.nKey = man.nKey := by
  obtain ⟨swapped, result, indexed, alike, length, -⟩ := loose.indexed.swapRandom first second
  refine ⟨swapped, result, ⟨indexed, ?_, ?_⟩, length, (congrArg CAddrMan.nKey alike :)⟩
  · rw [← tabled_unplaced_iff, alike]
    exact tabled_unplaced_iff.mpr loose.tabled
  · intro nId info found
    obtain ⟨before, standing, same⟩ :=
      found_of_unplaced (congrArg CAddrMan.mapInfo alike).symm found
    have timed := loose.timed nId before standing
    change before.unplaced.Timed nonneg at timed
    rw [same] at timed
    exact timed

theorem delete
    (loose : man.Loose hash nonneg (insert nId pending) uncounted)
    (found : man.mapInfo.get? nId = some info)
    (isNew : info.fInTried = false)
    (unreferenced : info.nRefCount = 0) :
    ∃ next, man.delete nId = some next ∧ next.Loose hash nonneg pending uncounted ∧
      next.vvNew = man.vvNew ∧ next.vvTried = man.vvTried ∧ next.nKey = man.nKey ∧
      ∀ other, other ≠ nId → SameEntry man next other := by
  obtain ⟨next, result, indexed, alike⟩ := loose.indexed.delete found isNew unreferenced
  have unplacedFound : man.unplaced.mapInfo.get? nId = some info.unplaced := by
    rw [get?_unplaced, found, Option.map_some]
  have entries : ∀ other, (next.mapInfo.get? other).map CAddrInfo.unplaced =
      if other = nId then none else (man.mapInfo.get? other).map CAddrInfo.unplaced := by
    intro other
    rw [← get?_unplaced, alike, SortedMap.get?_erase, get?_unplaced]
  have tabled : next.Tabled hash (insert nId pending) uncounted := by
    have erased := (tabled_unplaced_iff.mpr loose.tabled).erase unplacedFound isNew unreferenced
      (Function.update man.mapAddr info.service.addr none)
    rw [← tabled_unplaced_iff, alike]
    exact erased
  have gone : next.mapInfo.get? nId = none := by
    have none := entries nId
    rw [if_pos rfl] at none
    exact Option.map_eq_none_iff.mp none
  have same : ∀ other, other ≠ nId → SameEntry man next other := by
    intro other apart
    have entry := entries other
    rwa [if_neg apart] at entry
  refine ⟨next, result, ⟨indexed, tabled.settle fun info there => ?_, ?_⟩,
    (congrArg CAddrMan.vvNew alike :), (congrArg CAddrMan.vvTried alike :),
    (congrArg CAddrMan.nKey alike :), same⟩
  · rw [gone] at there
    cases there
  · intro other moved there
    have apart : other ≠ nId := by
      rintro rfl
      rw [gone] at there
      cases there
    obtain ⟨before, standing, alike⟩ := SameEntry.found (same other apart).symm there
    have timed := loose.timed other before standing
    change before.unplaced.Timed nonneg at timed
    rw [alike] at timed
    exact timed

theorem clearNew
    (loose : man.Loose hash nonneg pending uncounted)
    (cell : Nat × Nat) :
    ∃ next, man.clearNew cell = some next ∧ next.Loose hash nonneg pending uncounted ∧
      next.vvNew = Function.update man.vvNew cell none ∧ next.vvTried = man.vvTried ∧
      next.nKey = man.nKey ∧
      ∀ other, man.vvNew cell ≠ some other → SameEntry man next other := by
  cases occupied : man.vvNew cell with
  | none =>
    have result : man.clearNew cell = some man := by
      rw [CAddrMan.clearNew, occupied]
    have unchanged : man.vvNew = Function.update man.vvNew cell none := by
      rw [← occupied, Function.update_eq_self]
    exact ⟨man, result, loose, unchanged, rfl, rfl, fun _ _ => rfl⟩
  | some nIdDelete =>
    obtain ⟨member, infoDelete, found, isNew, -⟩ := loose.tabled.newCell cell nIdDelete occupied
    have references := loose.tabled.references nIdDelete infoDelete found
    have positive := occurrences_pos_iff.mpr ⟨cell, member, occupied⟩
    let fewer : CAddrInfo := { infoDelete with nRefCount := infoDelete.nRefCount - 1 }
    let cleared : CAddrMan := { man with
      mapInfo := man.mapInfo.insert nIdDelete fewer
      vvNew := Function.update man.vvNew cell none }
    have clearedFound : cleared.mapInfo.get? nIdDelete = some fewer :=
      SortedMap.get?_insert_self _ _ _
    have fewerIndexed : (man.setInfo nIdDelete fewer).Indexed := loose.indexed.setInfo found rfl rfl
    have clearedLoose : cleared.Loose hash nonneg (insert nIdDelete pending) uncounted :=
      ⟨fewerIndexed.congr rfl rfl rfl rfl,
        loose.tabled.unrefer found occupied,
        timed_of_insert loose.timed rfl (loose.timed nIdDelete infoDelete found)⟩
    have same : ∀ other, some nIdDelete ≠ some other → SameEntry man cleared other :=
      fun other apart => .of_insert rfl fun here => apart (here ▸ rfl)
    have result : man.clearNew cell =
        if infoDelete.nRefCount - 1 = 0 then cleared.delete nIdDelete else some cleared := by
      rw [CAddrMan.clearNew, occupied]
      simp only [found, Option.bind_eq_bind, Option.bind_some]
      rw [if_neg (by omega)]
    by_cases last : infoDelete.nRefCount - 1 = 0
    · obtain ⟨next, deleted, nextLoose, vvNew, vvTried, nKey, others⟩ :=
        clearedLoose.delete clearedFound isNew last
      refine ⟨next, ?_, nextLoose, vvNew, vvTried, nKey, fun other apart => ?_⟩
      · rw [result, if_pos last, deleted]
      · exact (same other apart).trans (others other fun here => apart (here ▸ rfl))
    · refine ⟨cleared, ?_, ⟨clearedLoose.indexed, clearedLoose.tabled.settle ?_,
        clearedLoose.timed⟩, rfl, rfl, rfl, same⟩
      · rw [result, if_neg last]
      · intro info there _
        rw [clearedFound] at there
        cases there
        have more : 0 < infoDelete.nRefCount - 1 := by omega
        exact more

/-- Another reference to a new entry, from an empty cell. -/
theorem refer
    (loose : man.Loose hash nonneg (insert nId pending) uncounted)
    (found : man.mapInfo.get? nId = some info)
    (isNew : info.fInTried = false)
    (space : info.nRefCount < addrmanNewBucketsPerAddress)
    (member : cell ∈ newCells)
    (position : cell = info.newCell hash man.nKey cell.1)
    (vacant : man.vvNew cell = none) :
    ∃ next, man.refer nId cell = some next ∧ next.Loose hash nonneg pending uncounted ∧
      next.nKey = man.nKey := by
  have moreIndexed : (man.setInfo nId { info with nRefCount := info.nRefCount + 1 }).Indexed :=
    loose.indexed.setInfo found rfl rfl
  refine ⟨_, ?_, ⟨?_, loose.tabled.refer found isNew space member position vacant, ?_⟩, rfl⟩
  · rw [CAddrMan.refer, found]
    rfl
  · exact moreIndexed.congr rfl rfl rfl rfl
  · exact timed_of_insert loose.timed rfl (loose.timed nId info found)

end Loose

theorem newCell_mem (hash : BucketHash) (nKey : BitVec 256) (info : CAddrInfo)
    (bounded : nBucket < addrmanNewBucketCount) :
    info.newCell hash nKey nBucket ∈ newCells :=
  List.mem_product.mpr ⟨List.mem_range.mpr bounded,
    List.mem_range.mpr (Nat.mod_lt _ (by decide : 0 < addrmanBucketSize))⟩

theorem getNewBucket_lt (hash : BucketHash) (nKey : BitVec 256) (info : CAddrInfo)
    (src : CNetAddr) :
    info.getNewBucket hash nKey src < addrmanNewBucketCount :=
  Nat.mod_lt _ (by decide)

/-- The references to one entry from these buckets were taken away, and of that entry and of the
tried buckets nothing else has changed. -/
structure Unreferred (hash : BucketHash) (nonneg : Prop) (pending : Set Nat) (uncounted : Int)
    (man : CAddrMan) (nId : Nat) (info : CAddrInfo) (buckets : List Nat) (next : CAddrMan) :
    Prop where
  loose : next.Loose hash nonneg (insert nId pending) uncounted
  entry : ∃ nRefCount, next.mapInfo.get? nId = some { info with nRefCount := nRefCount }
  gone : ∀ bucket ∈ buckets, next.vvNew (info.newCell hash man.nKey bucket) ≠ some nId
  vvTried : next.vvTried = man.vvTried
  nKey : next.nKey = man.nKey

/-- One round of the loop takes away the reference from a bucket. -/
theorem Unreferred.removeFromNew
    (unreferred : Unreferred hash nonneg pending uncounted man nId info buckets next)
    (bucket : Nat) :
    Unreferred hash nonneg pending uncounted man nId info (buckets ++ [bucket])
      (next.removeFromNew hash nId bucket) := by
  obtain ⟨nRefCount, found⟩ := unreferred.entry
  let entry : CAddrInfo := { info with nRefCount := nRefCount }
  have cell : entry.newCell hash next.nKey bucket = info.newCell hash man.nKey bucket := by
    rw [unreferred.nKey]
    rfl
  by_cases occupied : next.vvNew (info.newCell hash man.nKey bucket) = some nId
  · let fewer : CAddrInfo := { info with nRefCount := nRefCount - 1 }
    have result : next.removeFromNew hash nId bucket =
        { next with
          mapInfo := next.mapInfo.insert nId fewer
          vvNew := Function.update next.vvNew (info.newCell hash man.nKey bucket) none } := by
      rw [CAddrMan.removeFromNew, found]
      dsimp only
      rw [cell, if_pos occupied]
    have fewerIndexed : (next.setInfo nId fewer).Indexed :=
      unreferred.loose.indexed.setInfo found rfl rfl
    have fewerTimed : fewer.Timed nonneg := unreferred.loose.timed nId entry found
    have tabled := unreferred.loose.tabled.unrefer found occupied
    rw [Set.insert_idem] at tabled
    rw [result]
    refine ⟨⟨fewerIndexed.congr rfl rfl rfl rfl, tabled,
      timed_of_insert unreferred.loose.timed rfl fewerTimed⟩,
      ⟨nRefCount - 1, SortedMap.get?_insert_self _ _ _⟩, fun other member => ?_,
      unreferred.vvTried, unreferred.nKey⟩
    dsimp only
    by_cases here : info.newCell hash man.nKey other = info.newCell hash man.nKey bucket
    · rw [here, Function.update_self]
      exact (nomatch ·)
    · rw [Function.update_of_ne here]
      refine unreferred.gone other ((List.mem_append.mp member).resolve_right fun last => ?_)
      exact here (by rw [List.mem_singleton.mp last])
  · have result : next.removeFromNew hash nId bucket = next := by
      rw [CAddrMan.removeFromNew, found]
      dsimp only
      rw [cell, if_neg occupied]
    rw [result]
    refine ⟨unreferred.loose, unreferred.entry, fun other member => ?_, unreferred.vvTried,
      unreferred.nKey⟩
    rcases List.mem_append.mp member with earlier | last
    · exact unreferred.gone other earlier
    · rw [List.mem_singleton.mp last]
      exact occupied

/-- The loop over buckets takes away the references from them. -/
theorem Loose.removeFromNew
    (loose : man.Loose hash nonneg pending uncounted)
    (found : man.mapInfo.get? nId = some info)
    (buckets : List Nat) :
    Unreferred hash nonneg pending uncounted man nId info buckets
      (buckets.foldl (CAddrMan.removeFromNew hash nId) man) := by
  induction buckets using List.reverseRecOn with
  | nil =>
    have start : man.Loose hash nonneg (insert nId pending) uncounted :=
      ⟨loose.indexed, loose.tabled.mono (Set.subset_insert nId pending), loose.timed⟩
    exact ⟨start, ⟨info.nRefCount, found⟩, fun _ none => (nomatch none), rfl, rfl⟩
  | append_singleton past bucket ih =>
    rw [List.foldl_append]
    exact ih.removeFromNew bucket

/-- After all buckets no reference is left. -/
theorem Unreferred.unreferenced
    (unreferred : Unreferred hash nonneg pending uncounted man nId info
      (List.range addrmanNewBucketCount) next) :
    next.mapInfo.get? nId = some { info with nRefCount := 0 } := by
  obtain ⟨nRefCount, found⟩ := unreferred.entry
  have none : occurrences newCells next.vvNew nId = 0 := by
    refine occurrences_eq_zero_iff.mpr fun cell member occupied => ?_
    obtain ⟨-, -, position⟩ := unreferred.loose.tabled.newCell_of_found found occupied
    rw [unreferred.nKey] at position
    rw [position] at occupied
    exact unreferred.gone cell.1 (List.mem_product.mp member).1 occupied
  have references := (unreferred.loose.tabled.references nId _ found).1
  rw [none] at references
  dsimp only at references
  rw [found, references]
  rfl

/-- Space is made in a tried bucket. -/
theorem Loose.evict
    (loose : man.Loose hash nonneg pending uncounted)
    (cell : Nat × Nat) :
    ∃ next, man.evict hash cell = some next ∧ next.Loose hash nonneg pending uncounted ∧
      next.vvTried = Function.update man.vvTried cell none ∧ next.nKey = man.nKey ∧
      ∀ other, man.vvTried cell ≠ some other → (∀ cell, man.vvNew cell ≠ some other) →
        SameEntry man next other := by
  cases occupied : man.vvTried cell with
  | none =>
    have result : man.evict hash cell = some man := by
      rw [CAddrMan.evict, occupied]
    have unchanged : man.vvTried = Function.update man.vvTried cell none := by
      rw [← occupied, Function.update_eq_self]
    exact ⟨man, result, loose, unchanged, rfl, fun _ _ _ => rfl⟩
  | some nIdEvict =>
    obtain ⟨infoOld, found, inTried, -⟩ := loose.tabled.triedCell cell nIdEvict occupied
    let isNew : CAddrInfo := { infoOld with fInTried := false }
    let removed : CAddrMan := { man with
      mapInfo := man.mapInfo.insert nIdEvict isNew
      vvTried := Function.update man.vvTried cell none
      nTried := man.nTried - 1 }
    let newCell := infoOld.newCell hash man.nKey (infoOld.getNewBucket hash man.nKey infoOld.source)
    have removedIndexed : (man.setInfo nIdEvict isNew).Indexed :=
      loose.indexed.setInfo found rfl rfl
    have timedOld := loose.timed nIdEvict infoOld found
    have isNewTimed : isNew.Timed nonneg :=
      ⟨timedOld.1, fun impossible => (nomatch impossible), timedOld.2.2⟩
    have removedLoose : removed.Loose hash nonneg (insert nIdEvict pending) (uncounted + 1) :=
      ⟨removedIndexed.congr rfl rfl rfl rfl, loose.tabled.leaveTried found occupied,
        timed_of_insert loose.timed rfl isNewTimed⟩
    have removedFound : removed.mapInfo.get? nIdEvict = some isNew :=
      SortedMap.get?_insert_self _ _ _
    have unused : ∀ cell, removed.vvNew cell ≠ some nIdEvict := fun _ =>
      loose.tabled.vvNew_ne found (.inl inTried)
    have unreferenced : infoOld.nRefCount = 0 := by
      rw [(loose.tabled.references nIdEvict infoOld found).1,
        occurrences_eq_zero_iff.mpr fun cell _ => unused cell]
      rfl
    obtain ⟨cleared, result, clearedLoose, vvNew, vvTried, nKey, others⟩ :=
      removedLoose.clearNew newCell
    obtain ⟨infoMoved, movedFound, alike⟩ :=
      (others nIdEvict (unused newCell)).found removedFound
    have movedNew : infoMoved.fInTried = false := (congrArg CAddrInfo.fInTried alike :)
    have movedCount : infoMoved.nRefCount = 0 :=
      (congrArg CAddrInfo.nRefCount alike :).trans unreferenced
    have movedService : infoMoved.service = infoOld.service :=
      (congrArg (fun info => info.service) alike :)
    have member : newCell ∈ newCells :=
      newCell_mem hash man.nKey infoOld (getNewBucket_lt hash man.nKey infoOld _)
    have position : newCell = infoMoved.newCell hash cleared.nKey newCell.1 := by
      rw [nKey, CAddrInfo.newCell, CAddrInfo.getBucketPosition, movedService]
      rfl
    have vacant : cleared.vvNew newCell = none := by
      rw [vvNew, Function.update_self]
    let entered : CAddrInfo := { infoMoved with nRefCount := 1 }
    have oneMore : { infoMoved with nRefCount := infoMoved.nRefCount + 1 } = entered := by
      rw [movedCount]
      rfl
    have referred := clearedLoose.tabled.refer movedFound movedNew
      (by rw [movedCount]; decide) member position vacant
    rw [oneMore] at referred
    have tabled := @Tabled.recount _ _ _ _ (cleared.nNew + 1) uncounted referred
      (by dsimp only; omega)
    have enteredIndexed : (cleared.setInfo nIdEvict entered).Indexed :=
      clearedLoose.indexed.setInfo movedFound rfl rfl
    have enteredTimed : entered.Timed nonneg := clearedLoose.timed nIdEvict infoMoved movedFound
    let next : CAddrMan := { cleared with
      mapInfo := cleared.mapInfo.insert nIdEvict entered
      vvNew := Function.update cleared.vvNew newCell (some nIdEvict)
      nNew := cleared.nNew + 1 }
    refine ⟨next, ?_, ⟨enteredIndexed.congr rfl rfl rfl rfl, tabled,
      timed_of_insert clearedLoose.timed rfl enteredTimed⟩, vvTried, nKey,
      fun other apart unused => ?_⟩
    · rw [CAddrMan.evict, occupied]
      simp only [found, Option.bind_eq_bind, Option.bind_some]
      rw [result, Option.bind_some, if_neg (by rw [vacant]; exact fun same => same rfl)]
      rw [movedFound]
      rfl
    · have differs : other ≠ nIdEvict := fun here => apart (here ▸ rfl)
      have first : SameEntry man removed other := .of_insert rfl differs
      exact (first.trans (others other (unused newCell))).trans (.of_insert rfl differs)

theorem Loose.moveToTried
    {looped : CAddrMan}
    (loose : looped.Loose hash nonneg (insert nId ∅) 0)
    (found : looped.mapInfo.get? nId = some info)
    (isNew : info.fInTried = false)
    (unreferenced : info.nRefCount = 0)
    (success : info.nLastSuccess ≠ 0) :
    ∃ next, looped.moveToTried hash nId = some next ∧ next.Consistent hash nonneg ∧
      next.nKey = looped.nKey := by
  let removed : CAddrMan := { looped with nNew := looped.nNew - 1 }
  have removedFound : removed.mapInfo.get? nId = some info := found
  have removedTabled : removed.Tabled hash (insert nId ∅) 1 := loose.tabled.recount (by omega)
  have removedLoose : removed.Loose hash nonneg (insert nId ∅) 1 :=
    ⟨loose.indexed.congr rfl rfl rfl rfl, removedTabled, loose.timed⟩
  let cell := info.triedCell hash removed.nKey
  obtain ⟨spaced, result, spacedLoose, vvTried, nKey, others⟩ := removedLoose.evict cell
  have untried : removed.vvTried cell ≠ some nId := by
    intro occupied
    obtain ⟨entry, standing, inTried, -⟩ := removedTabled.triedCell cell nId occupied
    rw [removedFound] at standing
    cases standing
    rw [isNew] at inTried
    cases inTried
  obtain ⟨infoMoved, movedFound, alike⟩ := (others nId untried fun _ =>
    removedTabled.vvNew_ne removedFound (.inr unreferenced)).found removedFound
  have movedNew : infoMoved.fInTried = false := (congrArg CAddrInfo.fInTried alike :).trans isNew
  have movedCount : infoMoved.nRefCount = 0 :=
    (congrArg CAddrInfo.nRefCount alike :).trans unreferenced
  have sameSuccess : infoMoved.nLastSuccess = info.nLastSuccess :=
    (congrArg CAddrInfo.nLastSuccess alike :)
  have movedSuccess : infoMoved.nLastSuccess ≠ 0 := sameSuccess ▸ success
  have movedService : infoMoved.service = info.service :=
    (congrArg (fun info => info.service) alike :)
  have position : cell = infoMoved.triedCell hash spaced.nKey := by
    rw [nKey, CAddrInfo.triedCell, CAddrInfo.getTriedBucket, CAddrInfo.getBucketPosition,
      movedService]
    rfl
  have vacant : spaced.vvTried cell = none := by
    rw [vvTried, Function.update_self]
  let entered : CAddrInfo := { infoMoved with fInTried := true }
  have enteredIndexed : (spaced.setInfo nId entered).Indexed :=
    spacedLoose.indexed.setInfo movedFound rfl rfl
  have timedMoved := spacedLoose.timed nId infoMoved movedFound
  have enteredTimed : entered.Timed nonneg := ⟨timedMoved.1, fun _ => movedSuccess, timedMoved.2.2⟩
  let next : CAddrMan := { spaced with
    mapInfo := spaced.mapInfo.insert nId entered
    vvTried := Function.update spaced.vvTried cell (some nId)
    nTried := spaced.nTried + 1 }
  refine ⟨next, ?_, ⟨enteredIndexed.congr rfl rfl rfl rfl,
    spacedLoose.tabled.enterTried movedFound movedNew movedCount position vacant,
    timed_of_insert spacedLoose.timed rfl enteredTimed⟩, nKey⟩
  rw [CAddrMan.moveToTried]
  change (removed.mapInfo.get? nId).bind _ = _
  rw [removedFound, Option.bind_some, if_neg (fun unequal => unequal unreferenced)]
  change (removed.evict hash cell).bind _ = _
  rw [result, Option.bind_some]
  rw [if_neg (by rw [vacant]; exact fun same => same rfl), movedFound]
  rfl

theorem Loose.makeTried
    (consistent : man.Consistent hash nonneg)
    (found : man.mapInfo.get? nId = some info)
    (isNew : info.fInTried = false)
    (success : info.nLastSuccess ≠ 0) :
    ∃ next, man.makeTried hash nId = some next ∧ next.Consistent hash nonneg ∧
      next.nKey = man.nKey := by
  have unreferred := consistent.removeFromNew found (List.range addrmanNewBucketCount)
  rw [← unreferred.nKey]
  exact unreferred.loose.moveToTried unreferred.unreferenced isNew rfl success

/-! ## The operations -/

theorem Loose.good_
    (consistent : man.Consistent hash nonneg)
    (positive : 0 < nTime)
    (addr : NetService) (draw : Nat) :
    ∃ next, man.good_ hash addr nTime draw = some next ∧ next.Consistent hash nonneg ∧
      next.nKey = man.nKey := by
  have notNegative : ¬nTime < 0 := fun below =>
    Int64.lt_irrefl (Int64.lt_trans below positive)
  have notZero : nTime ≠ 0 := fun zero => Int64.lt_irrefl (zero ▸ positive)
  rw [CAddrMan.good_]
  cases known : man.find addr.addr with
  | none => exact ⟨man, rfl, consistent, rfl⟩
  | some entry =>
    obtain ⟨nId, info⟩ := entry
    obtain ⟨found, -⟩ := consistent.indexed.find_eq_some known
    let updated : CAddrInfo :=
      { info with nLastSuccess := nTime, nLastTry := nTime, nAttempts := 0 }
    have updatedLoose : (man.setInfo nId updated).Consistent hash nonneg :=
      consistent.setInfo found rfl rfl rfl rfl ⟨notNegative, fun _ => notZero, fun _ => notNegative⟩
    dsimp only
    split_ifs with other inTried away
    · exact ⟨man, rfl, consistent, rfl⟩
    · exact ⟨_, rfl, updatedLoose, rfl⟩
    · exact ⟨_, rfl, updatedLoose, rfl⟩
    · exact updatedLoose.makeTried (SortedMap.get?_insert_self _ _ _)
        (Bool.eq_false_iff.mpr inTried) notZero

theorem setInfo_of_found
    (found : man.mapInfo.get? nId = some info) :
    man.setInfo nId info = man := by
  have same : man.mapInfo.insert nId info = man.mapInfo := by
    apply SortedMap.eq_of_get?
    intro wanted
    rw [SortedMap.get?_insert]
    split_ifs with here
    · rw [here, found]
    · rfl
  rw [setInfo, same]

/-- The end of `Add_`, for a new entry with space for another reference. -/
theorem Loose.enterNew
    (loose : man.Loose hash nonneg (insert nId ∅) 0)
    (found : man.mapInfo.get? nId = some info)
    (isNew : info.fInTried = false)
    (space : info.nRefCount < addrmanNewBucketsPerAddress)
    (source : CNetAddr) (nNow : Int64) :
    ∃ next, man.enterNew hash nId info source nNow = some next ∧
      next.Consistent hash nonneg ∧ next.nKey = man.nKey := by
  have settled : info.nRefCount ≠ 0 → man.Consistent hash nonneg := by
    intro referenced
    refine ⟨loose.indexed, loose.tabled.settle fun other there _ => ?_, loose.timed⟩
    rw [found] at there
    cases there
    have counted := (loose.tabled.references nId info found).1
    omega
  let cell := info.newCell hash man.nKey (info.getNewBucket hash man.nKey source)
  have member : cell ∈ newCells :=
    newCell_mem hash man.nKey info (getNewBucket_lt hash man.nKey info source)
  have named : info.newCell hash man.nKey (info.getNewBucket hash man.nKey source) = cell := rfl
  unfold CAddrMan.enterNew
  dsimp only
  rw [named]
  cases occupied : man.vvNew cell with
  | none => exact loose.refer found isNew space member rfl occupied
  | some nIdExisting =>
    obtain ⟨-, infoExisting, standing, -⟩ := loose.tabled.newCell cell nIdExisting occupied
    dsimp only
    rw [standing, Option.getD_some, setInfo_of_found standing]
    split_ifs with same clears unreferenced
    · refine ⟨man, rfl, settled fun unreferenced => ?_, rfl⟩
      exact loose.tabled.vvNew_ne found (.inr unreferenced) (same ▸ occupied)
    · obtain ⟨cleared, clearedResult, clearedLoose, vvNew, -, nKey, others⟩ :=
        loose.clearNew cell
      have different : man.vvNew cell ≠ some nId := by
        rw [occupied]
        exact fun here => same (Option.some.inj here)
      obtain ⟨moved, movedFound, alike⟩ := (others nId different).found found
      have movedNew : moved.fInTried = false := (congrArg CAddrInfo.fInTried alike :).trans isNew
      have movedCount : moved.nRefCount = info.nRefCount := (congrArg CAddrInfo.nRefCount alike :)
      have movedService : moved.service = info.service :=
        (congrArg (fun info => info.service) alike :)
      have position : cell = moved.newCell hash cleared.nKey cell.1 := by
        rw [nKey, CAddrInfo.newCell, CAddrInfo.getBucketPosition, movedService]
        rfl
      have vacant : cleared.vvNew cell = none := by
        rw [vvNew, Function.update_self]
      rw [clearedResult, Option.bind_eq_bind, Option.bind_some, ← nKey]
      exact clearedLoose.refer movedFound movedNew (movedCount ▸ space) member position vacant
    · obtain ⟨next, deleted, nextLoose, -, -, nKey, -⟩ :=
        loose.delete found isNew unreferenced
      exact ⟨next, deleted, nextLoose, nKey⟩
    · exact ⟨man, rfl, settled unreferenced, rfl⟩

section

variable (consistent : man.Consistent hash nonneg)
include consistent

/-- The entry that `Add_` makes for an address that is not known. -/
theorem Loose.createNew
    (unknown : man.mapAddr addr.service.addr = none)
    (source : CNetAddr) (nTimePenalty : Int64) :
    (man.createNew addr source nTimePenalty).2.2.Loose hash nonneg
      (insert (man.createNew addr source nTimePenalty).1 ∅) 0 := by
  let made : CAddrInfo := (man.create addr source).2.1
  let info : CAddrInfo := (man.createNew addr source nTimePenalty).2.1
  have fresh := consistent.indexed.get?_nIdCount
  have createdIndexed := consistent.indexed.create unknown source
  have madeTimed : made.Timed nonneg :=
    ⟨Int64.lt_irrefl, fun impossible => (nomatch impossible), fun _ => Int64.lt_irrefl⟩
  have createdTabled : (man.create addr source).2.2.Tabled hash (insert man.nIdCount ∅) (0 + 1) :=
    @Tabled.create _ _ _ _ _ made _ consistent.tabled fresh rfl rfl rfl rfl rfl rfl rfl rfl
  have created : (man.create addr source).2.2.Loose hash nonneg (insert man.nIdCount ∅) 1 :=
    ⟨createdIndexed, createdTabled, timed_of_insert consistent.timed rfl madeTimed⟩
  have createdFound : (man.create addr source).2.2.mapInfo.get? man.nIdCount = some made :=
    SortedMap.get?_insert_self _ _ _
  have updated : ((man.create addr source).2.2.setInfo man.nIdCount info).Loose hash nonneg
      (insert man.nIdCount ∅) 1 :=
    created.setInfo createdFound rfl rfl rfl rfl madeTimed
  have counted : (man.create addr source).2.2.nNew + 1 + 0 =
      ((man.create addr source).2.2.setInfo man.nIdCount info).nNew + 1 := Int.add_zero _
  exact ⟨updated.indexed.congr rfl rfl rfl rfl, updated.tabled.recount counted, updated.timed⟩

theorem Loose.add_
    (addr : CAddress) (source : CNetAddr) (nTimePenalty adjustedTime nNow : Int64)
    (draw : Nat) :
    ∃ fNew next, man.add_ hash addr source nTimePenalty adjustedTime nNow draw =
      some (fNew, next) ∧ next.Consistent hash nonneg ∧ next.nKey = man.nKey := by
  rw [CAddrMan.add_]
  by_cases routable : addr.service.addr.isRoutable = true
  · rw [if_neg (by rw [routable]; decide)]
    cases here : man.find addr.service.addr with
    | some entry =>
      obtain ⟨nId, known⟩ := entry
      obtain ⟨found, -⟩ := consistent.indexed.find_eq_some here
      let info := seenAgain known addr nTimePenalty adjustedTime
      have updated : (man.setInfo nId info).Consistent hash nonneg :=
        consistent.setInfo found rfl rfl rfl rfl (consistent.timed nId known found)
      have infoFound : (man.setInfo nId info).mapInfo.get? nId = some info :=
        SortedMap.get?_insert_self _ _ _
      dsimp only
      split_ifs with another
      · have limited := (updated.tabled.references nId info infoFound).2
        simp only [addsBucket, Bool.and_eq_true, Bool.not_eq_true', bne_iff_ne] at another
        have space : info.nRefCount < addrmanNewBucketsPerAddress :=
          lt_of_le_of_ne limited another.1.2
        have loose : (man.setInfo nId info).Loose hash nonneg (insert nId ∅) 0 :=
          ⟨updated.indexed, updated.tabled.mono (Set.empty_subset _), updated.timed⟩
        obtain ⟨next, entered, nextConsistent⟩ :=
          loose.enterNew infoFound another.1.1.2 space source nNow
        rw [entered]
        exact ⟨false, next, rfl, nextConsistent⟩
      · exact ⟨false, _, rfl, updated, rfl⟩
    | none =>
      have unknown := consistent.indexed.find_eq_none here
      have created := consistent.createNew unknown source nTimePenalty
      have space : (0 : Int) < addrmanNewBucketsPerAddress := by decide
      have found : (man.createNew addr source nTimePenalty).2.2.mapInfo.get?
          (man.createNew addr source nTimePenalty).1 =
            some (man.createNew addr source nTimePenalty).2.1 :=
        SortedMap.get?_insert_self _ _ _
      obtain ⟨next, entered, nextConsistent⟩ := created.enterNew found rfl space source nNow
      dsimp only
      rw [entered]
      exact ⟨true, next, rfl, nextConsistent⟩
  · rw [if_pos (by simpa using routable)]
    exact ⟨false, man, rfl, consistent, rfl⟩

theorem Loose.attempt_
    (notNegative : nonneg → ¬nTime < 0)
    (addr : NetService) :
    (man.attempt_ addr nTime).Consistent hash nonneg ∧
      (man.attempt_ addr nTime).nKey = man.nKey := by
  rw [CAddrMan.attempt_]
  cases known : man.find addr.addr with
  | none => exact ⟨consistent, rfl⟩
  | some entry =>
    obtain ⟨nId, info⟩ := entry
    obtain ⟨found, -⟩ := consistent.indexed.find_eq_some known
    have timed := consistent.timed nId info found
    dsimp only
    split_ifs with other
    · exact ⟨consistent, rfl⟩
    · exact ⟨consistent.setInfo found rfl rfl rfl rfl ⟨timed.1, timed.2.1, notNegative⟩, rfl⟩

theorem Loose.connected_
    (addr : NetService) (nTime : Int64) :
    (man.connected_ addr nTime).Consistent hash nonneg ∧
      (man.connected_ addr nTime).nKey = man.nKey := by
  rw [CAddrMan.connected_]
  cases known : man.find addr.addr with
  | none => exact ⟨consistent, rfl⟩
  | some entry =>
    obtain ⟨nId, info⟩ := entry
    obtain ⟨found, -⟩ := consistent.indexed.find_eq_some known
    dsimp only
    split_ifs with other late
    · exact ⟨consistent, rfl⟩
    · exact ⟨consistent.setInfo found rfl rfl rfl rfl (consistent.timed nId info found), rfl⟩
    · exact ⟨consistent, rfl⟩

theorem Loose.getAddrLoop
    (within : rounds ≤ man.vRandom.length)
    (nNodes : Nat) (draw : Nat → Nat) (nNow : Nat → Int64) (vAddr : List CAddress) :
    ∃ result next, getAddrLoop nNodes draw nNow rounds man vAddr = some (result, next) ∧
      next.Consistent hash nonneg ∧ next.nKey = man.nKey := by
  induction rounds generalizing man vAddr with
  | zero => exact ⟨vAddr, man, rfl, consistent, rfl⟩
  | succ rounds ih =>
    rw [CAddrMan.getAddrLoop]
    split_ifs with enough
    · exact ⟨vAddr, man, rfl, consistent, rfl⟩
    · let n := man.vRandom.length - (rounds + 1)
      let nRndPos := getRandInt (draw n) (man.vRandom.length - n) + n
      have inside : nRndPos < man.vRandom.length := by
        have some : man.vRandom.length - n ≠ 0 := by omega
        have drawn : getRandInt (draw n) (man.vRandom.length - n) < man.vRandom.length - n := by
          rw [getRandInt, if_neg some]
          exact Nat.mod_lt _ (by omega)
        omega
      have nInside : n < man.vRandom.length := by omega
      have first : man.vRandom[n]? = some man.vRandom[n] := List.getElem?_eq_getElem nInside
      have second : man.vRandom[nRndPos]? = some man.vRandom[nRndPos] :=
        List.getElem?_eq_getElem inside
      obtain ⟨swapped, result, swappedConsistent, length, nKey⟩ :=
        consistent.swapRandom first second
      have swappedInside : n < swapped.vRandom.length := by omega
      have here : swapped.vRandom[n]? = some swapped.vRandom[n] :=
        List.getElem?_eq_getElem swappedInside
      obtain ⟨ai, found, -⟩ := swappedConsistent.indexed.found_of_vRandom here
      obtain ⟨vAddr', next, rest, nextConsistent⟩ :=
        ih swappedConsistent (by omega)
          (if ai.isTerrible (nNow n) then vAddr else vAddr ++ [ai.toCAddress])
      refine ⟨vAddr', next, ?_, nextConsistent.1, nextConsistent.2.trans nKey⟩
      change (man.swapRandom n nRndPos).bind _ = _
      rw [result, Option.bind_some, Option.bind_eq_bind, here, Option.bind_some,
        Option.bind_eq_bind, found, Option.bind_some, rest]

end

theorem isSome_selectLoop
    (live : ∀ cell nId, table cell = some nId → ∃ info, man.mapInfo.get? nId = some info)
    (nBuckets : Nat) (rounds : List SelectRound) :
    (man.selectLoop table nBuckets rounds).isSome := by
  induction rounds with
  | nil => rfl
  | cons round rounds ih =>
    rw [selectLoop]
    split
    · exact ih
    · rename_i nId occupied
      obtain ⟨info, found⟩ := live _ nId occupied
      rw [found, Option.bind_eq_bind, Option.bind_some]
      split_ifs
      · rfl
      · exact ih

theorem Loose.isSome_select_
    (consistent : man.Consistent hash nonneg)
    (draw : Nat) (rounds : List SelectRound) :
    (man.select_ draw rounds).isSome := by
  rw [select_]
  split_ifs
  · rfl
  · refine isSome_selectLoop (fun cell nId occupied => ?_) _ rounds
    obtain ⟨info, found, -⟩ := consistent.tabled.triedCell cell nId occupied
    exact ⟨info, found⟩
  · refine isSome_selectLoop (fun cell nId occupied => ?_) _ rounds
    obtain ⟨-, info, found, -⟩ := consistent.tabled.newCell cell nId occupied
    exact ⟨info, found⟩

end CAddrMan

namespace AddrManCall

/-- `Good_` is called at positive times only. -/
def GoodPositive : AddrManCall → Prop
  | .good _ nTime _ => 0 < nTime
  | _ => True

/-- `Attempt_` is not called at negative times. -/
def AttemptNonneg : AddrManCall → Prop
  | .attempt _ nTime => ¬nTime < 0
  | _ => True

end AddrManCall

namespace CAddrMan

variable {hash : BucketHash} {man : CAddrMan}

theorem consistent_empty (hash : BucketHash) (nonneg : Prop) (nKey : BitVec 256) :
    (empty nKey).Consistent hash nonneg :=
  ⟨Indexed.empty nKey, Tabled.empty hash nKey, fun _ _ found => nomatch found⟩

/-- Every call succeeds, keeps the manager consistent, and does not change its key. -/
theorem Loose.apply
    (consistent : man.Consistent hash nonneg)
    (goodPositive : call.GoodPositive)
    (attemptNonneg : nonneg → call.AttemptNonneg) :
    ∃ next, man.apply hash call = some next ∧ next.Consistent hash nonneg ∧
      next.nKey = man.nKey := by
  cases call with
  | add addr source nTimePenalty adjustedTime nNow draw =>
    obtain ⟨fNew, next, result, nextConsistent⟩ :=
      consistent.add_ addr source nTimePenalty adjustedTime nNow draw
    exact ⟨next, by rw [CAddrMan.apply, result, Option.map_some], nextConsistent⟩
  | good addr nTime draw => exact consistent.good_ goodPositive addr draw
  | attempt addr nTime => exact ⟨_, rfl, consistent.attempt_ attemptNonneg addr⟩
  | connected addr nTime => exact ⟨_, rfl, consistent.connected_ addr nTime⟩
  | getAddr vAddr draw nNow =>
    obtain ⟨result, next, done, nextConsistent⟩ :=
      consistent.getAddrLoop (Nat.le_refl _) (min (23 * man.vRandom.length / 100) 2500) draw
        nNow vAddr
    refine ⟨next, ?_, nextConsistent⟩
    rw [CAddrMan.apply, getAddr_, done, Option.map_some]
  | select draw rounds =>
    obtain ⟨result, done⟩ := Option.isSome_iff_exists.mp (consistent.isSome_select_ draw rounds)
    exact ⟨man, by rw [CAddrMan.apply, done, Option.map_some], consistent, rfl⟩

theorem Loose.run
    (consistent : man.Consistent hash nonneg)
    (goodPositive : ∀ call ∈ calls, call.GoodPositive)
    (attemptNonneg : nonneg → ∀ call ∈ calls, call.AttemptNonneg) :
    ∃ next, man.run hash calls = some next ∧ next.Consistent hash nonneg ∧
      next.nKey = man.nKey := by
  induction calls generalizing man with
  | nil => exact ⟨man, rfl, consistent, rfl⟩
  | cons call calls ih =>
    rw [List.forall_mem_cons] at goodPositive
    obtain ⟨next, result, nextConsistent, nKey⟩ := consistent.apply goodPositive.1 fun holds =>
      attemptNonneg holds call List.mem_cons_self
    obtain ⟨last, rest, lastConsistent⟩ := ih nextConsistent goodPositive.2
      fun holds other member => attemptNonneg holds other (List.mem_cons_of_mem call member)
    refine ⟨last, ?_, lastConsistent.1, lastConsistent.2.trans nKey⟩
    rw [CAddrMan.run, List.foldlM_cons, result]
    exact rest

end CAddrMan

end ColossusCoin
