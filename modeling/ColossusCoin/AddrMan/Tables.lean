import ColossusCoin.AddrMan.Indexes
import ColossusCoin.Library.Occupancy

/-!
# The tables of the address manager

Each entry is in the tried buckets or has references from the new ones, and the counters say how
many there are of each kind.  Within an operation some entries may be without references, and the
counter of new entries may be off by a known number.
-/

namespace ColossusCoin

open Occupancy

/-- What an entry counts for among the tried ones. -/
def CAddrInfo.countTried (info : CAddrInfo) : Int :=
  if info.fInTried then 1 else 0

/-- What an entry counts for among the new ones. -/
def CAddrInfo.countNew (info : CAddrInfo) : Int :=
  if info.fInTried then 0 else 1

theorem nodup_newCells : newCells.Nodup :=
  List.nodup_range.product List.nodup_range

theorem nodup_triedCells : triedCells.Nodup :=
  List.nodup_range.product List.nodup_range

namespace CAddrMan

/-- The tables and the counters agree with the entries, where only these new entries may be
without references, and so many new entries are not counted. -/
structure Tabled (hash : BucketHash) (pending : Set Nat) (uncounted : Int) (man : CAddrMan) :
    Prop where
  newCell : ∀ cell nId, man.vvNew cell = some nId → cell ∈ newCells ∧
    ∃ info, man.mapInfo.get? nId = some info ∧ info.fInTried = false ∧
      cell = info.newCell hash man.nKey cell.1
  references : ∀ nId info, man.mapInfo.get? nId = some info →
    info.nRefCount = occurrences newCells man.vvNew nId ∧
      info.nRefCount ≤ addrmanNewBucketsPerAddress
  referenced : ∀ nId info, man.mapInfo.get? nId = some info → info.fInTried = false →
    nId ∉ pending → 0 < info.nRefCount
  triedCell : ∀ cell nId, man.vvTried cell = some nId →
    ∃ info, man.mapInfo.get? nId = some info ∧ info.fInTried = true ∧
      cell = info.triedCell hash man.nKey
  tried : ∀ nId info, man.mapInfo.get? nId = some info → info.fInTried = true →
    man.vvTried (info.triedCell hash man.nKey) = some nId
  countNew : man.nNew + uncounted = man.mapInfo.total CAddrInfo.countNew
  countTried : man.nTried = man.mapInfo.total CAddrInfo.countTried

variable {hash : BucketHash} {pending : Set Nat} {uncounted : Int} {man : CAddrMan}
variable {nId : Nat}

/-- The positions of the entries do not matter to the tables. -/
theorem tabled_unplaced_iff :
    man.unplaced.Tabled hash pending uncounted ↔ man.Tabled hash pending uncounted := by
  have totals : ∀ measure : CAddrInfo → Int, (∀ info, measure info.unplaced = measure info) →
      man.unplaced.mapInfo.total measure = man.mapInfo.total measure := by
    intro measure same
    unfold SortedMap.total unplaced SortedMap.mapValues
    rw [List.map_map]
    exact congrArg List.sum (List.map_congr_left fun entry _ => same entry.2)
  have countNew := totals CAddrInfo.countNew fun _ => rfl
  have countTried := totals CAddrInfo.countTried fun _ => rfl
  have found : ∀ {nId info}, man.mapInfo.get? nId = some info →
      man.unplaced.mapInfo.get? nId = some info.unplaced := by
    intro nId info here
    rw [get?_unplaced, here, Option.map_some]
  have placed : ∀ {nId moved}, man.unplaced.mapInfo.get? nId = some moved →
      ∃ info, man.mapInfo.get? nId = some info ∧ info.unplaced = moved := by
    intro nId moved here
    rw [get?_unplaced] at here
    exact Option.map_eq_some_iff.mp here
  constructor
  · intro tabled
    refine ⟨?_, ?_, ?_, ?_, ?_, ?_, ?_⟩
    · intro cell nId here
      obtain ⟨member, moved, there, isNew, same⟩ := tabled.newCell cell nId here
      obtain ⟨info, standing, rfl⟩ := placed there
      exact ⟨member, info, standing, isNew, same⟩
    · intro nId info here
      exact tabled.references nId info.unplaced (found here)
    · intro nId info here
      exact tabled.referenced nId info.unplaced (found here)
    · intro cell nId here
      obtain ⟨moved, there, inTried, same⟩ := tabled.triedCell cell nId here
      obtain ⟨info, standing, rfl⟩ := placed there
      exact ⟨info, standing, inTried, same⟩
    · intro nId info here
      exact tabled.tried nId info.unplaced (found here)
    · exact tabled.countNew.trans countNew
    · exact tabled.countTried.trans countTried
  · intro tabled
    refine ⟨?_, ?_, ?_, ?_, ?_, ?_, ?_⟩
    · intro cell nId here
      obtain ⟨member, info, standing, isNew, same⟩ := tabled.newCell cell nId here
      exact ⟨member, info.unplaced, found standing, isNew, same⟩
    · intro nId moved here
      obtain ⟨info, standing, rfl⟩ := placed here
      exact tabled.references nId info standing
    · intro nId moved here
      obtain ⟨info, standing, rfl⟩ := placed here
      exact tabled.referenced nId info standing
    · intro cell nId here
      obtain ⟨info, standing, inTried, same⟩ := tabled.triedCell cell nId here
      exact ⟨info.unplaced, found standing, inTried, same⟩
    · intro nId moved here
      obtain ⟨info, standing, rfl⟩ := placed here
      exact tabled.tried nId info standing
    · exact tabled.countNew.trans countNew.symm
    · exact tabled.countTried.trans countTried.symm

/-- An entry in the place of another changes a total by the difference. -/
theorem total_setInfo
    (found : man.mapInfo.get? nId = some old)
    (measure : CAddrInfo → Int) (info : CAddrInfo) :
    (man.mapInfo.insert nId info).total measure =
      man.mapInfo.total measure + measure info - measure old := by
  have changed := SortedMap.total_insert_of_found found measure info
  omega

namespace Tabled

theorem empty (hash : BucketHash) (nKey : BitVec 256) : (empty nKey).Tabled hash ∅ 0 where
  newCell := fun _ _ here => nomatch here
  references := fun _ _ here => nomatch here
  referenced := fun _ _ here => nomatch here
  triedCell := fun _ _ here => nomatch here
  tried := fun _ _ here => nomatch here
  countNew := rfl
  countTried := rfl

theorem mono
    (tabled : man.Tabled hash pending uncounted)
    (more : pending ⊆ others) :
    man.Tabled hash others uncounted where
  newCell := tabled.newCell
  references := tabled.references
  referenced := fun nId info here isNew settled =>
    tabled.referenced nId info here isNew fun member => settled (more member)
  triedCell := tabled.triedCell
  tried := tabled.tried
  countNew := tabled.countNew
  countTried := tabled.countTried

/-- An entry that has references, or is tried, or is not there, needs no exception. -/
theorem settle
    (tabled : man.Tabled hash (insert nId pending) uncounted)
    (settled : ∀ info, man.mapInfo.get? nId = some info → info.fInTried = false →
      0 < info.nRefCount) :
    man.Tabled hash pending uncounted where
  newCell := tabled.newCell
  references := tabled.references
  referenced := by
    intro wanted info here isNew outside
    by_cases same : wanted = nId
    · exact settled info (same ▸ here) isNew
    · refine tabled.referenced wanted info here isNew fun member => ?_
      rcases member with here | member
      · exact same here
      · exact outside member
  triedCell := tabled.triedCell
  tried := tabled.tried
  countNew := tabled.countNew
  countTried := tabled.countTried

/-- The counter of new entries may be changed, with what it leaves uncounted. -/
theorem recount
    {nNew left : Int}
    (tabled : man.Tabled hash pending uncounted)
    (same : nNew + left = man.nNew + uncounted) :
    ({ man with nNew := nNew } : CAddrMan).Tabled hash pending left where
  newCell := tabled.newCell
  references := tabled.references
  referenced := tabled.referenced
  triedCell := tabled.triedCell
  tried := tabled.tried
  countNew := same.trans tabled.countNew
  countTried := tabled.countTried

/-- A new cell has a new entry, which may stand there. -/
theorem newCell_of_found
    (tabled : man.Tabled hash pending uncounted)
    (found : man.mapInfo.get? nId = some info)
    (occupied : man.vvNew cell = some nId) :
    cell ∈ newCells ∧ info.fInTried = false ∧ cell = info.newCell hash man.nKey cell.1 := by
  obtain ⟨member, entry, standing, rest⟩ := tabled.newCell cell nId occupied
  rw [found] at standing
  cases standing
  exact ⟨member, rest⟩

theorem triedCell_of_found
    (tabled : man.Tabled hash pending uncounted)
    (found : man.mapInfo.get? nId = some info)
    (occupied : man.vvTried cell = some nId) :
    info.fInTried = true ∧ cell = info.triedCell hash man.nKey := by
  obtain ⟨entry, standing, rest⟩ := tabled.triedCell cell nId occupied
  rw [found] at standing
  cases standing
  exact rest

theorem vvTried_ne
    (tabled : man.Tabled hash pending uncounted)
    (found : man.mapInfo.get? nId = some info)
    (isNew : info.fInTried = false) :
    man.vvTried cell ≠ some nId := by
  intro occupied
  have inTried := (tabled.triedCell_of_found found occupied).1
  rw [isNew] at inTried
  cases inTried

theorem vvNew_ne
    (tabled : man.Tabled hash pending uncounted)
    (found : man.mapInfo.get? nId = some info)
    (without : info.fInTried = true ∨ info.nRefCount = 0) :
    man.vvNew cell ≠ some nId := by
  intro here
  obtain ⟨member, isNew, -⟩ := tabled.newCell_of_found found here
  rcases without with inTried | unreferenced
  · rw [isNew] at inTried
    cases inTried
  · have counted := (tabled.references nId info found).1
    have positive := occurrences_pos_iff.mpr ⟨cell, member, here⟩
    omega

/-- One entry is replaced and its cells are changed.  What is asked of the tables is asked of its
cells only. -/
theorem replace
    {others : Set Nat} {left : Int} {next : CAddrMan}
    (tabled : man.Tabled hash pending uncounted)
    (nKey : next.nKey = man.nKey)
    (mapInfo : next.mapInfo = man.mapInfo.insert nId info)
    (elsewhereNew : ∀ cell other, other ≠ nId →
      (next.vvNew cell = some other ↔ man.vvNew cell = some other))
    (elsewhereTried : ∀ cell other, other ≠ nId →
      (next.vvTried cell = some other ↔ man.vvTried cell = some other))
    (newCell : ∀ cell, next.vvNew cell = some nId →
      cell ∈ newCells ∧ info.fInTried = false ∧ cell = info.newCell hash man.nKey cell.1)
    (references : info.nRefCount = occurrences newCells next.vvNew nId ∧
      info.nRefCount ≤ addrmanNewBucketsPerAddress)
    (referenced : info.fInTried = false → nId ∉ others → 0 < info.nRefCount)
    (triedCell : ∀ cell, next.vvTried cell = some nId →
      info.fInTried = true ∧ cell = info.triedCell hash man.nKey)
    (tried : info.fInTried = true →
      next.vvTried (info.triedCell hash man.nKey) = some nId)
    (exceptions : ∀ other ∈ pending, other ≠ nId → other ∈ others)
    (countNew : next.nNew + left = next.mapInfo.total CAddrInfo.countNew)
    (countTried : next.nTried = next.mapInfo.total CAddrInfo.countTried) :
    next.Tabled hash others left := by
  have here : next.mapInfo.get? nId = some info := by
    rw [mapInfo, SortedMap.get?_insert_self]
  have there : ∀ other, other ≠ nId → next.mapInfo.get? other = man.mapInfo.get? other := by
    intro other apart
    rw [mapInfo, SortedMap.get?_insert, if_neg apart]
  refine ⟨?_, ?_, ?_, ?_, ?_, countNew, countTried⟩
  · intro cell other occupied
    rw [nKey]
    by_cases same : other = nId
    · rw [same] at occupied ⊢
      obtain ⟨member, isNew, position⟩ := newCell cell occupied
      exact ⟨member, info, here, isNew, position⟩
    · obtain ⟨member, entry, found, rest⟩ :=
        tabled.newCell cell other ((elsewhereNew cell other same).mp occupied)
      exact ⟨member, entry, (there other same).trans found, rest⟩
  · intro other entry found
    by_cases same : other = nId
    · rw [same, here] at found
      cases found
      exact same ▸ references
    · rw [there other same] at found
      have counted : occurrences newCells next.vvNew other = occurrences newCells man.vvNew other :=
        List.countP_congr fun cell _ => by
          simp [elsewhereNew cell other same]
      rw [counted]
      exact tabled.references other entry found
  · intro other entry found isNew outside
    by_cases same : other = nId
    · rw [same, here] at found
      cases found
      exact referenced isNew (same ▸ outside)
    · rw [there other same] at found
      exact tabled.referenced other entry found isNew fun member =>
        outside (exceptions other member same)
  · intro cell other occupied
    rw [nKey]
    by_cases same : other = nId
    · rw [same] at occupied ⊢
      exact ⟨info, here, triedCell cell occupied⟩
    · obtain ⟨entry, found, rest⟩ :=
        tabled.triedCell cell other ((elsewhereTried cell other same).mp occupied)
      exact ⟨entry, (there other same).trans found, rest⟩
  · intro other entry found inTried
    rw [nKey]
    by_cases same : other = nId
    · rw [same, here] at found
      cases found
      exact same ▸ tried inTried
    · rw [there other same] at found
      exact (elsewhereTried _ other same).mpr (tabled.tried other entry found inTried)

/-- A cell that is empty or has one entry may be filled with that entry or cleared. -/
theorem elsewhere
    (before : table cell = none ∨ table cell = some nId)
    (after : change = none ∨ change = some nId)
    (wanted : Nat × Nat) (other : Nat) (apart : other ≠ nId) :
    Function.update table cell change wanted = some other ↔ table wanted = some other := by
  have away : ∀ {content : Option Nat}, content = none ∨ content = some nId →
      ¬content = some other := by
    rintro _ (rfl | rfl)
    · exact (nomatch ·)
    · exact fun same => apart (Option.some.inj same).symm
  by_cases here : wanted = cell
  · rw [here, Function.update_self]
    exact iff_of_false (away after) (away before)
  · rw [Function.update_of_ne here]

/-- An entry with another one in its place, of the same service, kind and references. -/
theorem setInfo
    (tabled : man.Tabled hash pending uncounted)
    (found : man.mapInfo.get? nId = some old)
    (service : info.service = old.service)
    (fInTried : info.fInTried = old.fInTried)
    (nRefCount : info.nRefCount = old.nRefCount) :
    (man.setInfo nId info).Tabled hash pending uncounted := by
  have newCell : ∀ bucket, info.newCell hash man.nKey bucket =
      old.newCell hash man.nKey bucket := by
    intro bucket
    rw [CAddrInfo.newCell, CAddrInfo.getBucketPosition, service]
    rfl
  have triedCell : info.triedCell hash man.nKey = old.triedCell hash man.nKey := by
    rw [CAddrInfo.triedCell, CAddrInfo.getTriedBucket, CAddrInfo.getBucketPosition, service]
    rfl
  have countNew : info.countNew = old.countNew := by
    rw [CAddrInfo.countNew, fInTried, CAddrInfo.countNew]
  have countTried : info.countTried = old.countTried := by
    rw [CAddrInfo.countTried, fInTried, CAddrInfo.countTried]
  refine @tabled.replace _ _ _ _ nId info pending uncounted (man.setInfo nId info) rfl rfl
    (fun _ _ _ => Iff.rfl) (fun _ _ _ => Iff.rfl) ?_ ?_ ?_ ?_ ?_ (fun _ member _ => member) ?_ ?_
  · intro cell occupied
    obtain ⟨member, isNew, position⟩ := tabled.newCell_of_found found occupied
    exact ⟨member, fInTried.trans isNew, position.trans (newCell cell.1).symm⟩
  · rw [nRefCount]
    exact tabled.references nId old found
  · intro isNew outside
    rw [nRefCount]
    exact tabled.referenced nId old found (fInTried.symm.trans isNew) outside
  · intro cell occupied
    obtain ⟨inTried, position⟩ := tabled.triedCell_of_found found occupied
    exact ⟨fInTried.trans inTried, position.trans triedCell.symm⟩
  · intro inTried
    rw [triedCell]
    exact tabled.tried nId old found (fInTried.symm.trans inTried)
  · have counted := tabled.countNew
    rw [CAddrMan.setInfo, total_setInfo found, countNew]
    dsimp only
    omega
  · have counted := tabled.countTried
    rw [CAddrMan.setInfo, total_setInfo found, countTried]
    dsimp only
    omega

/-- Without a new entry that has no references. -/
theorem erase
    (tabled : man.Tabled hash pending uncounted)
    (found : man.mapInfo.get? nId = some info)
    (isNew : info.fInTried = false)
    (unreferenced : info.nRefCount = 0)
    (mapAddr : CNetAddr → Option Nat) :
    ({ man with
      mapInfo := man.mapInfo.erase nId, mapAddr := mapAddr
      nNew := man.nNew - 1 } : CAddrMan).Tabled hash pending uncounted := by
  have counts : ∀ measure : CAddrInfo → Int,
      (man.mapInfo.erase nId).total measure = man.mapInfo.total measure - measure info := by
    intro measure
    have erased := SortedMap.total_erase_of_found found measure
    omega
  have stays : ∀ {other entry}, man.mapInfo.get? other = some entry → other ≠ nId →
      (man.mapInfo.erase nId).get? other = some entry := by
    intro other entry there apart
    rw [SortedMap.get?_erase, if_neg apart, there]
  refine ⟨?_, ?_, ?_, ?_, ?_, ?_, ?_⟩
  · intro cell other occupied
    obtain ⟨member, entry, there, rest⟩ := tabled.newCell cell other occupied
    have apart : other ≠ nId := by
      rintro rfl
      exact tabled.vvNew_ne found (.inr unreferenced) occupied
    exact ⟨member, entry, stays there apart, rest⟩
  · intro other entry there
    exact tabled.references other entry (SortedMap.get?_of_erase there)
  · intro other entry there
    exact tabled.referenced other entry (SortedMap.get?_of_erase there)
  · intro cell other occupied
    obtain ⟨entry, there, rest⟩ := tabled.triedCell cell other occupied
    have apart : other ≠ nId := by
      rintro rfl
      exact tabled.vvTried_ne found isNew occupied
    exact ⟨entry, stays there apart, rest⟩
  · intro other entry there
    exact tabled.tried other entry (SortedMap.get?_of_erase there)
  · have counted := tabled.countNew
    dsimp only
    rw [counts, CAddrInfo.countNew, isNew, if_neg Bool.false_ne_true]
    omega
  · have counted := tabled.countTried
    dsimp only
    rw [counts, CAddrInfo.countTried, isNew, if_neg Bool.false_ne_true]
    omega

/-- With a new entry without references. -/
theorem create
    {next : CAddrMan}
    (tabled : man.Tabled hash pending uncounted)
    (fresh : man.mapInfo.get? nId = none)
    (isNew : info.fInTried = false)
    (unreferenced : info.nRefCount = 0)
    (nKey : next.nKey = man.nKey)
    (mapInfo : next.mapInfo = man.mapInfo.insert nId info)
    (vvNew : next.vvNew = man.vvNew)
    (vvTried : next.vvTried = man.vvTried)
    (nNew : next.nNew = man.nNew)
    (nTried : next.nTried = man.nTried) :
    next.Tabled hash (insert nId pending) (uncounted + 1) := by
  have newCell : ∀ cell, man.vvNew cell ≠ some nId := by
    intro cell occupied
    obtain ⟨-, entry, there, -⟩ := tabled.newCell cell nId occupied
    rw [fresh] at there
    cases there
  have triedCell : ∀ cell, man.vvTried cell ≠ some nId := by
    intro cell occupied
    obtain ⟨entry, there, -⟩ := tabled.triedCell cell nId occupied
    rw [fresh] at there
    cases there
  have counts : ∀ measure : CAddrInfo → Int,
      next.mapInfo.total measure = measure info + man.mapInfo.total measure := by
    intro measure
    rw [mapInfo, SortedMap.total_insert_of_fresh fresh]
  refine tabled.replace nKey mapInfo (fun _ _ _ => by rw [vvNew]) (fun _ _ _ => by rw [vvTried])
    ?_ ?_ ?_ ?_ ?_ (fun other member _ => .inr member) ?_ ?_
  · intro cell occupied
    rw [vvNew] at occupied
    exact absurd occupied (newCell cell)
  · have none : occurrences newCells next.vvNew nId = 0 := by
      rw [vvNew]
      exact occurrences_eq_zero_iff.mpr fun cell _ => newCell cell
    rw [none, unreferenced]
    exact ⟨rfl, by decide⟩
  · exact fun _ outside => absurd (.inl rfl) outside
  · intro cell occupied
    rw [vvTried] at occupied
    exact absurd occupied (triedCell cell)
  · intro inTried
    rw [isNew] at inTried
    cases inTried
  · have counted := tabled.countNew
    rw [counts, CAddrInfo.countNew, isNew, if_neg Bool.false_ne_true, nNew]
    omega
  · have counted := tabled.countTried
    rw [counts, CAddrInfo.countTried, isNew, if_neg Bool.false_ne_true, nTried]
    omega

/-- A reference more, from an empty cell. -/
theorem refer
    (tabled : man.Tabled hash (insert nId pending) uncounted)
    (found : man.mapInfo.get? nId = some info)
    (isNew : info.fInTried = false)
    (space : info.nRefCount < addrmanNewBucketsPerAddress)
    (member : cell ∈ newCells)
    (position : cell = info.newCell hash man.nKey cell.1)
    (vacant : man.vvNew cell = none) :
    ({ man with
      mapInfo := man.mapInfo.insert nId { info with nRefCount := info.nRefCount + 1 }
      vvNew := Function.update man.vvNew cell (some nId) } : CAddrMan).Tabled hash pending
        uncounted := by
  have references := tabled.references nId info found
  have counted := occurrences_fill nodup_newCells member vacant nId nId
  rw [if_pos rfl] at counted
  refine settle (tabled.replace rfl rfl (elsewhere (.inl vacant) (.inr rfl))
    (fun _ _ _ => Iff.rfl) ?_ ?_ ?_ ?_ ?_ (fun other member _ => member) ?_ ?_) ?_
  · intro wanted occupied
    by_cases here : wanted = cell
    · rw [here]
      exact ⟨member, isNew, position⟩
    · dsimp only at occupied
      rw [Function.update_of_ne here] at occupied
      have stands := tabled.newCell_of_found found occupied
      exact stands
  · dsimp only
    rw [counted]
    constructor
    · push_cast
      omega
    · omega
  · intro _ _
    dsimp only
    omega
  · intro wanted occupied
    exact absurd occupied (tabled.vvTried_ne found isNew)
  · intro inTried
    rw [isNew] at inTried
    cases inTried
  · have counted := tabled.countNew
    rw [total_setInfo found]
    dsimp only [CAddrInfo.countNew]
    omega
  · have counted := tabled.countTried
    rw [total_setInfo found]
    dsimp only [CAddrInfo.countTried]
    omega
  · intro other there _
    rw [SortedMap.get?_insert_self] at there
    cases there
    dsimp only
    omega

/-- A reference less: the cell is cleared. -/
theorem unrefer
    (tabled : man.Tabled hash pending uncounted)
    (found : man.mapInfo.get? nId = some info)
    (occupied : man.vvNew cell = some nId) :
    ({ man with
      mapInfo := man.mapInfo.insert nId { info with nRefCount := info.nRefCount - 1 }
      vvNew := Function.update man.vvNew cell none } : CAddrMan).Tabled hash
        (insert nId pending) uncounted := by
  obtain ⟨member, isNew, -⟩ := tabled.newCell_of_found found occupied
  have references := tabled.references nId info found
  have counted := occurrences_clear nodup_newCells member occupied nId
  rw [if_pos rfl] at counted
  refine tabled.replace rfl rfl (elsewhere (.inr occupied) (.inl rfl))
    (fun _ _ _ => Iff.rfl) ?_ ?_ ?_ ?_ ?_ (fun other member _ => .inr member) ?_ ?_
  · intro wanted there
    dsimp only at there
    have apart : wanted ≠ cell := by
      rintro rfl
      rw [Function.update_self] at there
      cases there
    rw [Function.update_of_ne apart] at there
    have stands := tabled.newCell_of_found found there
    exact stands
  · dsimp only
    constructor
    · omega
    · omega
  · exact fun _ outside => absurd (.inl rfl) outside
  · intro wanted there
    exact absurd there (tabled.vvTried_ne found isNew)
  · intro inTried
    rw [isNew] at inTried
    cases inTried
  · have counted := tabled.countNew
    rw [total_setInfo found]
    dsimp only [CAddrInfo.countNew]
    omega
  · have counted := tabled.countTried
    rw [total_setInfo found]
    dsimp only [CAddrInfo.countTried]
    omega

/-- A tried entry becomes a new one without references. -/
theorem leaveTried
    (tabled : man.Tabled hash pending uncounted)
    (found : man.mapInfo.get? nId = some info)
    (occupied : man.vvTried cell = some nId) :
    ({ man with
      mapInfo := man.mapInfo.insert nId { info with fInTried := false }
      vvTried := Function.update man.vvTried cell none
      nTried := man.nTried - 1 } : CAddrMan).Tabled hash (insert nId pending) (uncounted + 1) := by
  obtain ⟨inTried, position⟩ := tabled.triedCell_of_found found occupied
  refine tabled.replace rfl rfl (fun _ _ _ => Iff.rfl) (elsewhere (.inr occupied) (.inl rfl))
    ?_ ?_ ?_ ?_ (fun impossible => nomatch impossible) (fun other member _ => .inr member) ?_ ?_
  · intro wanted there
    exact absurd there (tabled.vvNew_ne found (.inl inTried))
  · exact tabled.references nId info found
  · exact fun _ outside => absurd (.inl rfl) outside
  · intro wanted there
    dsimp only at there
    have apart : wanted ≠ cell := by
      rintro rfl
      rw [Function.update_self] at there
      cases there
    rw [Function.update_of_ne apart] at there
    obtain ⟨-, same⟩ := tabled.triedCell_of_found found there
    exact absurd (same.trans position.symm) apart
  · have counted := tabled.countNew
    rw [total_setInfo found]
    dsimp only [CAddrInfo.countNew]
    rw [inTried, if_neg Bool.false_ne_true, if_pos rfl]
    omega
  · have counted := tabled.countTried
    rw [total_setInfo found]
    dsimp only [CAddrInfo.countTried]
    rw [inTried, if_neg Bool.false_ne_true, if_pos rfl]
    omega

/-- A new entry without references becomes a tried one, in an empty cell. -/
theorem enterTried
    (tabled : man.Tabled hash (insert nId pending) uncounted)
    (found : man.mapInfo.get? nId = some info)
    (isNew : info.fInTried = false)
    (unreferenced : info.nRefCount = 0)
    (position : cell = info.triedCell hash man.nKey)
    (vacant : man.vvTried cell = none) :
    ({ man with
      mapInfo := man.mapInfo.insert nId { info with fInTried := true }
      vvTried := Function.update man.vvTried cell (some nId)
      nTried := man.nTried + 1 } : CAddrMan).Tabled hash pending (uncounted - 1) := by
  refine settle (tabled.replace rfl rfl (fun _ _ _ => Iff.rfl)
    (elsewhere (.inl vacant) (.inr rfl)) ?_ ?_ (fun impossible => nomatch impossible) ?_ ?_
    (fun other member _ => member) ?_ ?_) ?_
  · intro wanted there
    exact absurd there (tabled.vvNew_ne found (.inr unreferenced))
  · exact tabled.references nId info found
  · intro wanted there
    by_cases here : wanted = cell
    · exact ⟨rfl, here.trans position⟩
    · dsimp only at there
      rw [Function.update_of_ne here] at there
      exact absurd there (tabled.vvTried_ne found isNew)
  · intro _
    exact position ▸ Function.update_self cell (some nId) man.vvTried
  · have counted := tabled.countNew
    rw [total_setInfo found]
    dsimp only [CAddrInfo.countNew]
    rw [isNew, if_neg Bool.false_ne_true, if_pos rfl]
    omega
  · have counted := tabled.countTried
    rw [total_setInfo found]
    dsimp only [CAddrInfo.countTried]
    rw [isNew, if_neg Bool.false_ne_true, if_pos rfl]
    omega
  · intro other there impossible
    rw [SortedMap.get?_insert_self] at there
    cases there
    cases impossible

end Tabled

end CAddrMan

end ColossusCoin
