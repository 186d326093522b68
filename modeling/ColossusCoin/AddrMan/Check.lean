import ColossusCoin.AddrMan.Consistency
import Mathlib.Data.Finset.Card

/-!
# The check of the address manager

`Check_` compares the indexes, the tables and the counters with the entries, and returns the code
of the first disagreement.  It finds none in a consistent manager.
-/

namespace ColossusCoin

open Occupancy

namespace CAddrMan

/-- What the first loop of `Check_` collects: the tried entries, and the new ones with their
references. -/
abbrev Collected : Type :=
  Finset Nat × SortedMap Nat Int

/-- The kind of an entry, in the first loop of `Check_`. -/
def checkKind (collected : Collected) (entry : Nat × CAddrInfo) : Except Int Collected :=
  if entry.2.fInTried then
    if entry.2.nLastSuccess = 0 then throw (-1)
    else if entry.2.nRefCount ≠ 0 then throw (-2)
    else pure (insert entry.1 collected.1, collected.2)
  else if entry.2.nRefCount < 0 ∨ addrmanNewBucketsPerAddress < entry.2.nRefCount then throw (-3)
  else if entry.2.nRefCount = 0 then throw (-4)
  else pure (collected.1, collected.2.insert entry.1 entry.2.nRefCount)

/-- A round of the first loop of `Check_`.  An address that `operator[]` had to add would have the
identifier zero. -/
def checkEntry (man : CAddrMan) (collected : Collected) (entry : Nat × CAddrInfo) :
    Except Int Collected := do
  let collected ← checkKind collected entry
  if (man.mapAddr entry.2.service.addr).getD 0 ≠ entry.1 then throw (-5)
  else if (entry.2.nRandomPos.bind fun nRandomPos => man.vRandom[nRandomPos]?) ≠ some entry.1 then
    throw (-14)
  else if entry.2.nLastTry < 0 then throw (-6)
  else if entry.2.nLastSuccess < 0 then throw (-8)
  else pure collected

variable (hash : BucketHash)

/-- A round of the loops of `Check_` over the tried buckets. -/
def checkTriedCell (man : CAddrMan) (setTried : Finset Nat) (cell : Nat × Nat) :
    Except Int (Finset Nat) :=
  match man.vvTried cell with
  | none => pure setTried
  | some nId =>
    if nId ∉ setTried then throw (-11)
    else if (man.infoAt nId).getTriedBucket hash man.nKey ≠ cell.1 then throw (-17)
    else if (man.infoAt nId).getBucketPosition hash man.nKey false cell.1 ≠ cell.2 then
      throw (-18)
    else pure (setTried.erase nId)

/-- A round of the loops of `Check_` over the new buckets. -/
def checkNewCell (man : CAddrMan) (mapNew : SortedMap Nat Int) (cell : Nat × Nat) :
    Except Int (SortedMap Nat Int) :=
  match man.vvNew cell with
  | none => pure mapNew
  | some nId =>
    match mapNew.get? nId with
    | none => throw (-12)
    | some count =>
      if (man.infoAt nId).getBucketPosition hash man.nKey true cell.1 ≠ cell.2 then
        throw (-19)
      else if count - 1 = 0 then pure (mapNew.erase nId)
      else pure (mapNew.insert nId (count - 1))

/-- `Check_`, up to the code that it returns. -/
def checks (man : CAddrMan) : Except Int Unit := do
  if (man.vRandom.length : Int) ≠ man.nTried + man.nNew then throw (-7)
  let collected ← man.mapInfo.entries.foldlM man.checkEntry (∅, SortedMap.empty)
  if (collected.1.card : Int) ≠ man.nTried then throw (-9)
  if (collected.2.size : Int) ≠ man.nNew then throw (-10)
  let setTried ← triedCells.foldlM (man.checkTriedCell hash) collected.1
  let mapNew ← newCells.foldlM (man.checkNewCell hash) collected.2
  if setTried.card ≠ 0 then throw (-13)
  if mapNew.size ≠ 0 then throw (-15)
  if man.nKey = 0 then throw (-16)

/-- `Check_`: zero, or the code of the first disagreement. -/
def check_ (man : CAddrMan) : Int :=
  match man.checks hash with
  | .ok _ => 0
  | .error code => code

variable {hash : BucketHash} {man : CAddrMan}

theorem triedCell_mem (hash : BucketHash) (nKey : BitVec 256) (info : CAddrInfo) :
    info.triedCell hash nKey ∈ triedCells :=
  List.mem_product.mpr
    ⟨List.mem_range.mpr (Nat.mod_lt _ (by decide : 0 < addrmanTriedBucketCount)),
      List.mem_range.mpr (Nat.mod_lt _ (by decide : 0 < addrmanBucketSize))⟩

variable {mapNew : SortedMap Nat Int}

section

variable (tabled : man.Tabled hash pending uncounted)
include tabled

/-- The tried buckets have each tried entry once, and nothing else. -/
theorem Tabled.occurrences_vvTried
    (nId : Nat) :
    0 < occurrences triedCells man.vvTried nId ↔
      ∃ info, man.mapInfo.get? nId = some info ∧ info.fInTried = true := by
  rw [occurrences_pos_iff]
  constructor
  · rintro ⟨cell, -, occupied⟩
    obtain ⟨info, found, inTried, -⟩ := tabled.triedCell cell nId occupied
    exact ⟨info, found, inTried⟩
  · rintro ⟨info, found, inTried⟩
    exact ⟨_, triedCell_mem hash man.nKey info, tabled.tried nId info found inTried⟩

/-- The loops over the tried buckets cross off every tried entry. -/
theorem Tabled.checkTriedCells
    (nodup : cells.Nodup)
    (left : ∀ nId, nId ∈ setTried ↔ 0 < occurrences cells man.vvTried nId) :
    cells.foldlM (man.checkTriedCell hash) setTried = .ok ∅ := by
  induction cells generalizing setTried with
  | nil =>
    have none : setTried = ∅ := by
      ext nId
      rw [left nId]
      simp
    rw [none]
    rfl
  | cons cell cells ih =>
    obtain ⟨away, nodup⟩ := List.nodup_cons.mp nodup
    rw [List.foldlM_cons, checkTriedCell]
    cases occupied : man.vvTried cell with
    | none =>
      refine ih nodup fun nId => ?_
      rw [left nId, occurrences_cons, occupied, if_neg (Option.some_ne_none nId).symm]
      rfl
    | some nId =>
      obtain ⟨info, found, inTried, position⟩ := tabled.triedCell cell nId occupied
      have present : nId ∈ setTried := by
        rw [left nId, occurrences_cons, if_pos occupied]
        omega
      have entry : man.infoAt nId = info := by
        rw [infoAt, found, Option.getD_some]
      have once : occurrences cells man.vvTried nId = 0 := by
        refine occurrences_eq_zero_iff.mpr fun other member again => ?_
        obtain ⟨-, alike⟩ := tabled.triedCell_of_found found again
        exact away (position.trans alike.symm ▸ member)
      have bucket : info.getTriedBucket hash man.nKey = cell.1 := (congrArg Prod.fst position).symm
      have inBucket : info.getBucketPosition hash man.nKey false cell.1 = cell.2 := by
        rw [← bucket]
        exact (congrArg Prod.snd position).symm
      dsimp only
      rw [if_neg (not_not_intro present), entry, if_neg (not_not_intro bucket),
        if_neg (not_not_intro inBucket)]
      refine ih nodup fun other => ?_
      rw [Finset.mem_erase, left other, occurrences_cons, occupied]
      by_cases same : other = nId
      · rw [same, once]
        simp
      · have differs : ¬some nId = some other := fun here => same (Option.some.inj here).symm
        rw [if_neg differs]
        simp [same]

/-- The loops over the new buckets cross off every reference. -/
theorem Tabled.checkNewCells
    (left : ∀ nId, mapNew.get? nId =
      if occurrences cells man.vvNew nId = 0 then none
      else some (occurrences cells man.vvNew nId : Int)) :
    cells.foldlM (man.checkNewCell hash) mapNew = .ok SortedMap.empty := by
  induction cells generalizing mapNew with
  | nil =>
    have none : mapNew = SortedMap.empty := by
      apply SortedMap.eq_of_get?
      intro nId
      rw [left nId, occurrences_nil, if_pos rfl, SortedMap.get?_empty]
    rw [none]
    rfl
  | cons cell cells ih =>
    rw [List.foldlM_cons, checkNewCell]
    cases occupied : man.vvNew cell with
    | none =>
      refine ih fun nId => ?_
      rw [left nId, occurrences_cons, occupied, if_neg (Option.some_ne_none nId).symm, Nat.add_zero]
    | some nId =>
      obtain ⟨-, info, found, -, position⟩ := tabled.newCell cell nId occupied
      have entry : man.infoAt nId = info := by
        rw [infoAt, found, Option.getD_some]
      have counted : mapNew.get? nId = some (occurrences cells man.vvNew nId + 1 : Int) := by
        rw [left nId, occurrences_cons, if_pos occupied, if_neg (Nat.succ_ne_zero _)]
        rfl
      have inBucket : info.getBucketPosition hash man.nKey true cell.1 = cell.2 :=
        (congrArg Prod.snd position).symm
      have others : ∀ other, other ≠ nId → mapNew.get? other =
          if occurrences cells man.vvNew other = 0 then none
          else some (occurrences cells man.vvNew other : Int) := by
        intro other apart
        have differs : ¬some nId = some other := fun here => apart (Option.some.inj here).symm
        rw [left other, occurrences_cons, occupied, if_neg differs, Nat.add_zero]
      dsimp only
      rw [counted]
      dsimp only
      rw [entry, if_neg (not_not_intro inBucket), Int.add_sub_cancel]
      by_cases last : (occurrences cells man.vvNew nId : Int) = 0
      · rw [if_pos last]
        refine ih fun other => ?_
        rw [SortedMap.get?_erase]
        by_cases same : other = nId
        · rw [if_pos same, same, if_pos (by omega)]
        · rw [if_neg same, others other same]
      · rw [if_neg last]
        refine ih fun other => ?_
        rw [SortedMap.get?_insert]
        by_cases same : other = nId
        · rw [if_pos same, same, if_neg (by omega)]
        · rw [if_neg same, others other same]

end

theorem Loose.checkEntry
    (consistent : man.Consistent hash nonneg)
    (holds : nonneg)
    (found : man.mapInfo.get? nId = some info)
    (collected : Collected) :
    man.checkEntry collected (nId, info) =
      .ok (if info.fInTried then (insert nId collected.1, collected.2)
        else (collected.1, collected.2.insert nId info.nRefCount)) := by
  have timed := consistent.timed nId info found
  have references := consistent.tabled.references nId info found
  have kind : checkKind collected (nId, info) =
      .ok (if info.fInTried then (insert nId collected.1, collected.2)
        else (collected.1, collected.2.insert nId info.nRefCount)) := by
    unfold checkKind
    dsimp only
    by_cases inTried : info.fInTried = true
    · have unreferenced : info.nRefCount = 0 := by
        rw [references.1, occurrences_eq_zero_iff.mpr fun cell _ =>
          consistent.tabled.vvNew_ne found (.inl inTried)]
        rfl
      rw [if_pos inTried, if_neg (timed.2.1 inTried), if_neg (not_not_intro unreferenced),
        if_pos inTried]
      rfl
    · have referenced := consistent.tabled.referenced nId info found
        (Bool.eq_false_iff.mpr inTried) (Set.notMem_empty nId)
      have inBounds : ¬(info.nRefCount < 0 ∨ addrmanNewBucketsPerAddress < info.nRefCount) := by
        omega
      rw [if_neg inTried, if_neg inBounds, if_neg (by omega), if_neg inTried]
      rfl
  have addressed : man.mapAddr info.service.addr = some nId :=
    (consistent.indexed.addressed _ nId).mpr ⟨info, found, rfl⟩
  have placed : (info.nRandomPos.bind fun nRandomPos => man.vRandom[nRandomPos]?) = some nId := by
    obtain ⟨index, position, here⟩ := consistent.indexed.vRandom_of_found found
    rw [position, Option.bind_some, here]
  unfold CAddrMan.checkEntry
  rw [kind]
  dsimp only [bind, Except.bind]
  rw [addressed, Option.getD_some, if_neg (not_not_intro rfl), if_neg (not_not_intro placed),
    if_neg (timed.2.2 holds), if_neg timed.1]
  rfl

theorem Loose.checkEntries
    {past : List (Nat × CAddrInfo)}
    (consistent : man.Consistent hash nonneg)
    (holds : nonneg)
    (live : ∀ entry ∈ past, man.mapInfo.get? entry.1 = some entry.2) :
    ∃ collected, past.foldlM man.checkEntry (∅, SortedMap.empty) = .ok collected ∧
      (∀ nId, nId ∈ collected.1 ↔ ∃ info, (nId, info) ∈ past ∧ info.fInTried = true) ∧
      ∀ nId count, collected.2.get? nId = some count ↔
        ∃ info, (nId, info) ∈ past ∧ info.fInTried = false ∧ info.nRefCount = count := by
  induction past using List.reverseRecOn with
  | nil =>
    refine ⟨(∅, SortedMap.empty), rfl, fun nId => ?_, fun nId count => ?_⟩
    · simp
    · simp
  | append_singleton past entry ih =>
    obtain ⟨nId, info⟩ := entry
    rw [List.forall_mem_append, List.forall_mem_singleton] at live
    obtain ⟨collected, done, tried, new⟩ := ih live.1
    have step := consistent.checkEntry holds live.2 collected
    have result : (past ++ [(nId, info)]).foldlM man.checkEntry (∅, SortedMap.empty) =
        man.checkEntry collected (nId, info) := by
      rw [List.foldlM_append, done]
      exact bind_pure (man.checkEntry collected (nId, info))
    rw [result, step]
    refine ⟨_, rfl, fun other => ?_, fun other count => ?_⟩
    · have split : (∃ info', (other, info') ∈ past ++ [(nId, info)] ∧ info'.fInTried = true) ↔
          (∃ info', (other, info') ∈ past ∧ info'.fInTried = true) ∨
            (other = nId ∧ info.fInTried = true) := by
        simp only [List.mem_append, List.mem_singleton, Prod.mk.injEq, or_and_right, exists_or]
        simp
      rw [split, ← tried other]
      cases inTried : info.fInTried with
      | true => simp [or_comm]
      | false => simp
    · have split : (∃ info', (other, info') ∈ past ++ [(nId, info)] ∧ info'.fInTried = false ∧
          info'.nRefCount = count) ↔
            (∃ info', (other, info') ∈ past ∧ info'.fInTried = false ∧
              info'.nRefCount = count) ∨
            (other = nId ∧ info.fInTried = false ∧ info.nRefCount = count) := by
        simp only [List.mem_append, List.mem_singleton, Prod.mk.injEq, or_and_right, exists_or]
        simp
      rw [split, ← new other count]
      cases inTried : info.fInTried with
      | true => simp
      | false =>
        rw [if_neg Bool.false_ne_true]
        rw [SortedMap.get?_insert]
        by_cases same : other = nId
        · subst same
          have again : ∀ count, collected.2.get? other = some count →
              info.nRefCount = count := by
            intro count there
            obtain ⟨before, member, -, counted⟩ := (new other count).mp there
            have found := live.1 _ member
            rw [live.2] at found
            cases found
            exact counted
          rw [if_pos rfl, Option.some.injEq]
          exact ⟨fun counted => .inr ⟨rfl, rfl, counted⟩,
            fun either => either.elim (again count) fun last => last.2.2⟩
        · rw [if_neg same]
          exact ⟨.inl, fun either => either.resolve_right fun last => same last.1⟩

/-- The order has the identifiers of the entries. -/
theorem Indexed.vRandom_perm
    (indexed : man.Indexed) :
    man.vRandom.Perm (man.mapInfo.entries.map Prod.fst) := by
  rw [List.perm_ext_iff_of_nodup indexed.placed.nodup man.mapInfo.nodup_keys]
  intro nId
  rw [indexed.placed.mem_iff, List.mem_map]
  constructor
  · rintro ⟨index, here⟩
    obtain ⟨info, found, -⟩ := Option.bind_eq_some_iff.mp here
    exact ⟨(nId, info), (man.mapInfo.get?_eq_some_iff nId info).mp found, rfl⟩
  · rintro ⟨⟨_, info⟩, member, rfl⟩
    have found := (man.mapInfo.get?_eq_some_iff _ info).mpr member
    obtain ⟨index, position⟩ := indexed.hasPlace _ info found
    exact ⟨index, (place_of_found found).trans position⟩

theorem Indexed.length_vRandom
    (indexed : man.Indexed) :
    man.vRandom.length = man.mapInfo.size := by
  rw [indexed.vRandom_perm.length_eq, List.length_map]
  rfl

theorem Tabled.nTried_eq
    (tabled : man.Tabled hash pending uncounted) :
    man.nTried = man.mapInfo.entries.countP fun entry => entry.2.fInTried :=
  tabled.countTried.trans (SortedMap.total_countP _ _)

theorem Tabled.nNew_eq
    (tabled : man.Tabled hash pending uncounted) :
    man.nNew + uncounted = man.mapInfo.entries.countP fun entry => !entry.2.fInTried := by
  rw [tabled.countNew, ← SortedMap.total_countP (fun info : CAddrInfo => !info.fInTried)]
  congr 1
  funext info
  rw [CAddrInfo.countNew]
  cases info.fInTried with
  | false => rfl
  | true => rfl

/-- The counters add up to the length of the order. -/
theorem Loose.length_vRandom
    (consistent : man.Consistent hash nonneg) :
    (man.vRandom.length : Int) = man.nTried + man.nNew := by
  have new := consistent.tabled.nNew_eq
  have tried := consistent.tabled.nTried_eq
  have whole := @List.length_eq_countP_add_countP (Nat × CAddrInfo) (fun entry => entry.2.fInTried)
    man.mapInfo.entries
  have others : (man.mapInfo.entries.countP fun entry => decide ¬entry.2.fInTried = true) =
      man.mapInfo.entries.countP fun entry => !entry.2.fInTried :=
    List.countP_congr fun entry _ => by simp
  have length := consistent.indexed.length_vRandom
  rw [SortedMap.size] at length
  omega

theorem Tabled.card_setTried
    {setTried : Finset Nat}
    (tabled : man.Tabled hash pending uncounted)
    (collected : ∀ nId, nId ∈ setTried ↔
      ∃ info, (nId, info) ∈ man.mapInfo.entries ∧ info.fInTried = true) :
    (setTried.card : Int) = man.nTried := by
  let tried := (man.mapInfo.entries.filter fun entry => entry.2.fInTried).map Prod.fst
  have nodup : tried.Nodup := man.mapInfo.nodup_keys.sublist (List.filter_sublist.map Prod.fst)
  have same : setTried = tried.toFinset := by
    ext nId
    rw [collected nId, List.mem_toFinset, List.mem_map]
    simp [exists_and_right]
  rw [same, List.toFinset_card_of_nodup nodup, List.length_map, tabled.nTried_eq,
    List.countP_eq_length_filter]

theorem Tabled.size_mapNew
    (tabled : man.Tabled hash pending uncounted)
    (collected : ∀ nId count, mapNew.get? nId = some count ↔
      ∃ info, (nId, info) ∈ man.mapInfo.entries ∧ info.fInTried = false ∧
        info.nRefCount = count) :
    (mapNew.size : Int) = man.nNew + uncounted := by
  let new := (man.mapInfo.entries.filter fun entry => !entry.2.fInTried).map Prod.fst
  have nodup : new.Nodup := man.mapInfo.nodup_keys.sublist (List.filter_sublist.map Prod.fst)
  have perm : (mapNew.entries.map Prod.fst).Perm new := by
    rw [List.perm_ext_iff_of_nodup mapNew.nodup_keys nodup]
    intro nId
    simp only [new, List.mem_map, List.mem_filter, Prod.exists, exists_and_right, exists_eq_right,
      ← mapNew.get?_eq_some_iff, collected nId, Bool.not_eq_true']
    constructor
    · rintro ⟨count, info, member, isNew, -⟩
      exact ⟨info, member, isNew⟩
    · rintro ⟨info, member, isNew⟩
      exact ⟨info.nRefCount, info, member, isNew, rfl⟩
  have length := perm.length_eq
  rw [List.length_map, List.length_map] at length
  rw [SortedMap.size, length, tabled.nNew_eq, List.countP_eq_length_filter]

section

variable (consistent : man.Consistent hash nonneg)
include consistent

/-- The collected references are those of the new buckets. -/
theorem Loose.get?_mapNew
    (collected : ∀ nId count, mapNew.get? nId = some count ↔
      ∃ info, (nId, info) ∈ man.mapInfo.entries ∧ info.fInTried = false ∧
        info.nRefCount = count)
    (nId : Nat) :
    mapNew.get? nId = if occurrences newCells man.vvNew nId = 0 then none
      else some (occurrences newCells man.vvNew nId : Int) := by
  ext count
  rw [collected nId count]
  constructor
  · rintro ⟨info, member, isNew, rfl⟩
    have found := (man.mapInfo.get?_eq_some_iff nId info).mpr member
    have references := (consistent.tabled.references nId info found).1
    have referenced := consistent.tabled.referenced nId info found isNew (Set.notMem_empty nId)
    rw [if_neg (by omega), references]
  · intro counted
    split_ifs at counted with none
    obtain ⟨cell, -, occupied⟩ := occurrences_pos_iff.mp (Nat.pos_of_ne_zero none)
    obtain ⟨-, info, found, isNew, -⟩ := consistent.tabled.newCell cell nId occupied
    exact ⟨info, (man.mapInfo.get?_eq_some_iff nId info).mp found, isNew,
      (consistent.tabled.references nId info found).1.trans (Option.some.inj counted)⟩

/-- The check finds nothing in a consistent manager but that it has no key. -/
theorem Loose.check_eq
    (holds : nonneg) :
    man.check_ hash = if man.nKey = 0 then -16 else 0 := by
  have live : ∀ entry ∈ man.mapInfo.entries, man.mapInfo.get? entry.1 = some entry.2 :=
    fun entry member => (man.mapInfo.get?_eq_some_iff _ _).mpr member
  obtain ⟨collected, done, tried, new⟩ := consistent.checkEntries holds live
  have triedLeft : ∀ nId, nId ∈ collected.1 ↔ 0 < occurrences triedCells man.vvTried nId := by
    intro nId
    simp only [tried nId, ← man.mapInfo.get?_eq_some_iff, consistent.tabled.occurrences_vvTried]
  have triedLoop := consistent.tabled.checkTriedCells nodup_triedCells triedLeft
  have newLoop := consistent.tabled.checkNewCells (consistent.get?_mapNew new)
  have triedSize := consistent.tabled.card_setTried tried
  have newSize := consistent.tabled.size_mapNew new
  rw [Int.add_zero] at newSize
  have passes : man.checks hash = if man.nKey = 0 then .error (-16) else .ok () := by
    unfold checks
    rw [done]
    simp [bind, Except.bind, triedLoop, newLoop, triedSize, newSize,
      consistent.length_vRandom, pure, Except.pure, throw, throwThe, MonadExceptOf.throw]
  rw [CAddrMan.check_, passes]
  split_ifs
  · rfl
  · rfl

theorem Loose.check_
    (holds : nonneg)
    (keyed : man.nKey ≠ 0) :
    man.check_ hash = 0 := by
  rw [consistent.check_eq holds, if_neg keyed]

end

end CAddrMan

end ColossusCoin
