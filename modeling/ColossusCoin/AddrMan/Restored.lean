import ColossusCoin.AddrMan.Written

/-!
# The address manager read back

What was written comes back under other identifiers: the place of an entry among the new ones,
followed by the tried ones.  Each reference and each tried entry finds the cell free that it had, so
nothing is lost.
-/

namespace ColossusCoin

open BackPointers ByteReaders Occupancy

/-- The entry as it is kept, before it has references and a position. -/
def CAddrInfo.kept (info : CAddrInfo) : CAddrInfo :=
  { info.stored with fInTried := info.fInTried }

namespace CAddrMan

variable {hash : BucketHash} {nonneg : Prop} {man next : CAddrMan} {nVersion : Int32}

/-- The entries in the order in which they are written. -/
def saved (man : CAddrMan) : List (Nat × CAddrInfo) :=
  newOf man.mapInfo.entries ++ triedOf man.mapInfo.entries

/-- The number under which an entry is read back. -/
def number (man : CAddrMan) (nId : Nat) : Nat :=
  (man.saved.map Prod.fst).idxOf nId

theorem saved_perm (man : CAddrMan) : man.saved.Perm man.mapInfo.entries := by
  have split := List.filter_append_perm (fun entry : Nat × CAddrInfo => entry.2.fInTried)
    man.mapInfo.entries
  exact List.perm_append_comm.trans split

variable {mapUnkIds : Nat → Nat} {n : Nat}
variable {entry : Nat × CAddrInfo}
variable {info : CAddrInfo}

theorem mem_saved_iff :
    (nId, info) ∈ man.saved ↔ man.mapInfo.get? nId = some info := by
  rw [man.saved_perm.mem_iff, man.mapInfo.get?_eq_some_iff]

theorem nodup_saved (man : CAddrMan) : (man.saved.map Prod.fst).Nodup :=
  (man.saved_perm.map Prod.fst).nodup_iff.mpr man.mapInfo.nodup_keys

theorem number_eq
    (here : man.saved[n]? = some entry) :
    man.number entry.1 = n := by
  obtain ⟨bound, at_⟩ := List.getElem?_eq_some_iff.mp here
  have inside : n < (man.saved.map Prod.fst).length := by rwa [List.length_map]
  have place : (man.saved.map Prod.fst)[n] = entry.1 := by rw [List.getElem_map, at_]
  rw [number, ← place]
  exact man.nodup_saved.idxOf_getElem n inside

/-- An entry is in the place of its number. -/
theorem saved_number
    (found : man.mapInfo.get? nId = some info) :
    man.saved[man.number nId]? = some (nId, info) := by
  obtain ⟨n, here⟩ := List.mem_iff_getElem?.mp (mem_saved_iff.mpr found)
  rwa [number_eq here]

theorem map_number_saved (man : CAddrMan) :
    (man.saved.map Prod.fst).map man.number = List.range man.saved.length := by
  refine List.ext_getElem? fun n => ?_
  rw [List.getElem?_map, List.getElem?_map]
  cases here : man.saved[n]? with
  | none =>
    rw [List.getElem?_eq_none (by simpa using here)]
    rfl
  | some entry =>
    obtain ⟨bound, -⟩ := List.getElem?_eq_some_iff.mp here
    rw [List.getElem?_range bound, Option.map_some, Option.map_some, number_eq here]

/-- Entries of one address have one identifier. -/
theorem Loose.nId_of_addr
    (consistent : man.Consistent hash nonneg)
    (firstThere : first ∈ man.saved)
    (secondThere : second ∈ man.saved)
    (same : first.2.service.addr = second.2.service.addr) :
    first.1 = second.1 := by
  have one := (consistent.indexed.addressed _ _).mpr ⟨_, mem_saved_iff.mp firstThere, same⟩
  have other := (consistent.indexed.addressed _ _).mpr ⟨_, mem_saved_iff.mp secondThere, rfl⟩
  exact Option.some.inj (one.symm.trans other)

theorem Loose.nId_of_triedCell
    (consistent : man.Consistent hash nonneg)
    (firstThere : first ∈ man.saved)
    (secondThere : second ∈ man.saved)
    (firstTried : first.2.fInTried = true)
    (secondTried : second.2.fInTried = true)
    (same : first.2.triedCell hash man.nKey = second.2.triedCell hash man.nKey) :
    first.1 = second.1 := by
  have one := consistent.tabled.tried _ _ (mem_saved_iff.mp firstThere) firstTried
  have other := consistent.tabled.tried _ _ (mem_saved_iff.mp secondThere) secondTried
  rw [same] at one
  exact Option.some.inj (one.symm.trans other)

/-- The entries of a manager that is being read, each under its place, without references. -/
structure Lists (hash : BucketHash) (man : CAddrMan) (infos : List CAddrInfo) (next : CAddrMan) :
    Prop where
  nKey : next.nKey = man.nKey
  nNew : next.nNew = man.nNew
  nTried : next.nTried = man.nTried
  mapInfo : ∀ n, next.mapInfo.get? n =
    infos[n]?.map fun info => { info with nRandomPos := some n }
  mapAddr : ∀ addr n, next.mapAddr addr = some n ↔
    ∃ info, infos[n]? = some info ∧ info.service.addr = addr
  vRandom : next.vRandom = List.range infos.length
  vvTried : ∀ cell n, next.vvTried cell = some n ↔
    ∃ info, infos[n]? = some info ∧ info.fInTried = true ∧ info.triedCell hash man.nKey = cell
  vvNew : ∀ cell, next.vvNew cell = none

/-- Another entry at the end of the row. -/
def listed (hash : BucketHash) (next : CAddrMan) (n nIdCount : Nat) (info : CAddrInfo) :
    CAddrMan :=
  { next with
    nIdCount := nIdCount
    mapInfo := next.mapInfo.insert n { info with nRandomPos := some next.vRandom.length }
    mapAddr := Function.update next.mapAddr info.service.addr (some n)
    vRandom := next.vRandom ++ [n]
    vvTried :=
      if info.fInTried then Function.update next.vvTried (info.triedCell hash next.nKey) (some n)
      else next.vvTried }

/-- An entry with another address than those in the row, and with a cell of its own where it is
tried. -/
theorem Lists.listed
    (lists : Lists hash man infos next)
    (unknown : ∀ other ∈ infos, other.service.addr ≠ info.service.addr)
    (apart : ∀ other ∈ infos, info.fInTried = true → other.fInTried = true →
      other.triedCell hash man.nKey ≠ info.triedCell hash man.nKey)
    (nIdCount : Nat) :
    Lists hash man (infos ++ [info]) (next.listed hash infos.length nIdCount info) where
  nKey := lists.nKey
  nNew := lists.nNew
  nTried := lists.nTried
  mapInfo := by
    intro n
    rw [CAddrMan.listed, SortedMap.get?_insert, getElem?_snoc, lists.vRandom, List.length_range]
    by_cases atEnd : n = infos.length
    · rw [if_pos atEnd, if_pos atEnd, atEnd, Option.map_some]
    · rw [if_neg atEnd, if_neg atEnd, lists.mapInfo]
  mapAddr := by
    intro addr n
    rw [exists_getElem?_snoc, ← lists.mapAddr]
    dsimp only [CAddrMan.listed]
    by_cases same : addr = info.service.addr
    · subst same
      have absent : next.mapAddr info.service.addr ≠ some n := by
        intro here
        obtain ⟨other, there, alike⟩ := (lists.mapAddr _ n).mp here
        exact unknown other (List.mem_of_getElem? there) alike
      rw [Function.update_self, Option.some.injEq, or_iff_right absent, and_iff_left rfl, eq_comm]
    · rw [Function.update_of_ne same]
      simp [Ne.symm same]
  vRandom := by
    rw [CAddrMan.listed, lists.vRandom, List.length_append, List.length_singleton, List.range_succ]
  vvTried := by
    intro cell n
    rw [exists_getElem?_snoc, ← lists.vvTried]
    dsimp only [CAddrMan.listed]
    rw [lists.nKey]
    by_cases inTried : info.fInTried = true
    · rw [if_pos inTried]
      by_cases same : cell = info.triedCell hash man.nKey
      · subst same
        have absent : next.vvTried (info.triedCell hash man.nKey) ≠ some n := by
          intro here
          obtain ⟨other, there, otherTried, position⟩ := (lists.vvTried _ n).mp here
          exact apart other (List.mem_of_getElem? there) inTried otherTried position
        rw [Function.update_self, Option.some.injEq, or_iff_right absent,
          and_iff_left ⟨inTried, rfl⟩, eq_comm]
      · rw [Function.update_of_ne same]
        simp [Ne.symm same]
    · rw [if_neg inTried]
      simp [inTried]
  vvNew := lists.vvNew

/-- The next entry of those that were saved has an address of its own, and a cell of its own where
it is tried. -/
theorem Loose.apart
    (consistent : man.Consistent hash nonneg)
    (started : past ++ [entry] <+: man.saved) :
    ∀ info ∈ past.map fun entry => entry.2.kept,
      info.service.addr ≠ entry.2.kept.service.addr ∧
        (entry.2.kept.fInTried = true → info.fInTried = true →
          info.triedCell hash man.nKey ≠ entry.2.kept.triedCell hash man.nKey) := by
  intro info there
  obtain ⟨other, inPast, rfl⟩ := List.mem_map.mp there
  have nodup := man.nodup_saved.sublist (started.sublist.map Prod.fst)
  rw [List.map_append, List.nodup_append'] at nodup
  have fresh : other.1 ≠ entry.1 := fun same =>
    nodup.2.2 (List.mem_map_of_mem inPast) (by simp [same])
  have member : entry ∈ man.saved := started.subset (by simp)
  have earlier : other ∈ man.saved := started.subset (List.mem_append_left _ inPast)
  constructor
  · intro same
    exact fresh (consistent.nId_of_addr earlier member same)
  · intro inTried otherTried same
    exact fresh (consistent.nId_of_triedCell earlier member otherTried inTried same)

theorem Loose.listsNext
    (consistent : man.Consistent hash nonneg)
    (started : past ++ [entry] <+: man.saved)
    (lists : Lists hash man (past.map fun entry => entry.2.kept) next)
    (nIdCount : Nat) :
    Lists hash man ((past ++ [entry]).map fun entry => entry.2.kept)
      (next.listed hash past.length nIdCount entry.2.kept) := by
  have apart := consistent.apart started
  have extended := lists.listed (fun info there => (apart info there).1)
    (fun info there => (apart info there).2) nIdCount
  rw [List.length_map] at extended
  rw [List.map_append]
  exact extended

/-- A new entry is put at the end of the row. -/
theorem Lists.loadNew
    (lists : Lists hash man infos next)
    (isNew : info.fInTried = false) :
    CAddrMan.loadNew hash 1 addrmanNewBucketCount next (info.stored, infos.length) =
      next.listed hash infos.length next.nIdCount info.kept := by
  have absent : next.infoAt infos.length = CAddrInfo.null := by
    rw [infoAt, lists.mapInfo, List.getElem?_eq_none (Nat.le_refl _)]
    rfl
  have uses : usesBuckets 1 addrmanNewBucketCount = true := rfl
  have keptNew : ¬info.kept.fInTried = true := by
    rw [CAddrInfo.kept, isNew]
    exact Bool.false_ne_true
  have same : info.kept = info.stored := by
    rw [CAddrInfo.kept, isNew]
    rfl
  unfold CAddrMan.loadNew CAddrMan.listed
  dsimp only
  rw [absent, uses, if_neg keptNew, same]
  rfl

/-- A tried entry finds its cell free, and is put at the end of the row. -/
theorem Lists.loadTried
    (lists : Lists hash man infos next)
    (inTried : info.fInTried = true)
    (apart : ∀ other ∈ infos, other.fInTried = true →
      other.triedCell hash man.nKey ≠ info.triedCell hash man.nKey)
    (counted : next.nIdCount = infos.length) :
    CAddrMan.loadTried hash (next, 0) info.stored =
      (next.listed hash infos.length (infos.length + 1) info.kept, 0) := by
  have free : next.vvTried (info.stored.triedCell hash next.nKey) = none := by
    rw [Option.eq_none_iff_forall_ne_some]
    intro n here
    obtain ⟨other, there, otherTried, position⟩ := (lists.vvTried _ n).mp here
    rw [lists.nKey] at position
    exact apart other (List.mem_of_getElem? there) otherTried position
  have same : info.kept = { info.stored with fInTried := true } := by
    rw [CAddrInfo.kept, inTried]
  unfold CAddrMan.loadTried CAddrMan.listed
  rw [same]
  dsimp only
  rw [free, counted, if_pos rfl]
  rfl

/-- The first loop of `Unserialize` reads the new entries. -/
theorem Loose.loadNewEntries
    (consistent : man.Consistent hash nonneg)
    (started : past <+: newOf man.mapInfo.entries)
    (starts : Lists hash man [] start) :
    Lists hash man (past.map fun entry => entry.2.kept)
      ((past.map fun entry => entry.2.stored).zipIdx.foldl
        (CAddrMan.loadNew hash 1 addrmanNewBucketCount) start) := by
  induction past using List.reverseRecOn with
  | nil => exact starts
  | append_singleton past entry ih =>
    have lists := ih ((List.prefix_append past [entry]).trans started)
    have member : entry ∈ newOf man.mapInfo.entries := started.subset (by simp)
    have isNew : entry.2.fInTried = false := by
      simpa using (List.mem_filter.mp member).2
    have step := lists.loadNew isNew
    rw [List.length_map] at step
    have folded : (((past ++ [entry]).map fun entry => entry.2.stored).zipIdx.foldl
        (CAddrMan.loadNew hash 1 addrmanNewBucketCount) start) =
          CAddrMan.loadNew hash 1 addrmanNewBucketCount
            ((past.map fun entry => entry.2.stored).zipIdx.foldl
              (CAddrMan.loadNew hash 1 addrmanNewBucketCount) start)
            (entry.2.stored, past.length) := by
      rw [List.map_append, List.zipIdx_append, List.foldl_append, List.length_map, Nat.zero_add]
      rfl
    rw [folded, step]
    exact consistent.listsNext (started.trans (List.prefix_append _ _)) lists _

/-- The second loop of `Unserialize` reads the tried entries, and loses none. -/
theorem Loose.loadTriedEntries
    (consistent : man.Consistent hash nonneg)
    (started : past <+: triedOf man.mapInfo.entries)
    (starts : Lists hash man ((newOf man.mapInfo.entries).map fun entry => entry.2.kept) start)
    (counted : start.nIdCount = (newOf man.mapInfo.entries).length) :
    ∃ last, (past.map fun entry => entry.2.stored).foldl (CAddrMan.loadTried hash) (start, 0) =
        (last, 0) ∧
      Lists hash man ((newOf man.mapInfo.entries ++ past).map fun entry => entry.2.kept) last ∧
      last.nIdCount = (newOf man.mapInfo.entries ++ past).length := by
  induction past using List.reverseRecOn with
  | nil =>
    rw [List.append_nil]
    exact ⟨start, rfl, starts, counted⟩
  | append_singleton past entry ih =>
    obtain ⟨last, done, lists, counted⟩ :=
      ih ((List.prefix_append past [entry]).trans started)
    have member : entry ∈ triedOf man.mapInfo.entries := started.subset (by simp)
    have inTried : entry.2.fInTried = true := (List.mem_filter.mp member).2
    have whole : newOf man.mapInfo.entries ++ past ++ [entry] <+: man.saved := by
      rw [List.append_assoc]
      exact (List.prefix_append_right_inj _).mpr started
    have apart := consistent.apart whole
    have step := lists.loadTried inTried
      (fun info there => (apart info there).2 inTried)
      (counted.trans (List.length_map _).symm)
    rw [List.length_map] at step
    rw [← List.append_assoc]
    have length : (newOf man.mapInfo.entries ++ past ++ [entry]).length =
        (newOf man.mapInfo.entries ++ past).length + 1 := List.length_append
    refine ⟨_, ?_, consistent.listsNext whole lists _, length.symm⟩
    rw [List.map_append, List.foldl_append, done]
    exact step

/-- The references from some cells have been read. -/
structure Filled (man base : CAddrMan) (cells : List (Nat × Nat)) (next : CAddrMan) : Prop where
  rest : next = { base with mapInfo := next.mapInfo, vvNew := next.vvNew }
  mapInfo : ∀ n, next.mapInfo.get? n = man.saved[n]?.map fun entry =>
    { entry.2.kept with
      nRefCount := occurrences cells man.vvNew entry.1
      nRandomPos := some n }
  vvNew : ∀ cell, next.vvNew cell =
    if cell ∈ cells then (man.vvNew cell).map man.number else none

/-- The number that was written of a cell, put back. -/
def placeCell (hash : BucketHash) (man : CAddrMan) (mapUnkIds : Nat → Nat) (next : CAddrMan)
    (cell : Nat × Nat) : CAddrMan :=
  match man.vvNew cell with
  | none => next
  | some nId => loadIndex hash 1 addrmanNewBucketCount cell.1 next (mapUnkIds nId)

/-- The new entries come first, under the numbers that `Serialize` gives them. -/
theorem Loose.mapUnkIds_eq
    (consistent : man.Consistent hash nonneg)
    (numbered : ∀ index entry, (newOf man.mapInfo.entries)[index]? = some entry →
      mapUnkIds entry.1 = index)
    (found : man.mapInfo.get? nId = some info)
    (isNew : info.fInTried = false) :
    mapUnkIds nId = man.number nId ∧ (man.number nId : Int) < man.nNew := by
  have listed : (nId, info) ∈ newOf man.mapInfo.entries :=
    List.mem_filter.mpr ⟨(man.mapInfo.get?_eq_some_iff _ _).mp found, by simp [isNew]⟩
  obtain ⟨index, here⟩ := List.mem_iff_getElem?.mp listed
  have bound := (List.getElem?_eq_some_iff.mp here).1
  have inSaved : man.saved[index]? = some (nId, info) := by
    rw [saved, List.getElem?_append_left bound, here]
  have number : man.number nId = index := number_eq inSaved
  have written : mapUnkIds nId = index := numbered index (nId, info) here
  constructor
  · rw [written, number]
  · rw [consistent.nNew_eq, number]
    exact Int.ofNat_lt.mpr bound

theorem loadIndex_eq
    (inRange : (n : Int) < next.nNew)
    (entry : next.infoAt n = info)
    (position : info.newCell hash next.nKey cell.1 = cell)
    (free : next.vvNew cell = none)
    (few : info.nRefCount < addrmanNewBucketsPerAddress) :
    loadIndex hash 1 addrmanNewBucketCount cell.1 next n =
      { next with
        mapInfo := next.mapInfo.insert n { info with nRefCount := info.nRefCount + 1 }
        vvNew := Function.update next.vvNew cell (some n) } := by
  have usable : (usesBuckets 1 addrmanNewBucketCount && (none : Option Nat).isNone &&
      decide (info.nRefCount < addrmanNewBucketsPerAddress)) = true := by
    rw [decide_eq_true few]
    rfl
  unfold loadIndex
  rw [if_pos ⟨Int.natCast_nonneg n, inRange⟩, Int.toNat_natCast, entry]
  dsimp only
  rw [position, free, if_pos usable]

/-- A reference finds its cell free and its entry with fewer references than it had. -/
theorem Loose.placeCell
    (consistent : man.Consistent hash nonneg)
    (numbered : ∀ index entry, (newOf man.mapInfo.entries)[index]? = some entry →
      mapUnkIds entry.1 = index)
    (nKey : base.nKey = man.nKey)
    (nNew : base.nNew = man.nNew)
    (started : cells ++ [cell] <+: newCells)
    (filled : Filled man base cells next) :
    Filled man base (cells ++ [cell]) (placeCell hash man mapUnkIds next cell) := by
  have fresh : cell ∉ cells := by
    have nodup := nodup_newCells.sublist started.sublist
    rw [List.nodup_append'] at nodup
    exact fun earlier => nodup.2.2 earlier (List.mem_singleton_self cell)
  have counted : ∀ nId, occurrences (cells ++ [cell]) man.vvNew nId =
      occurrences cells man.vvNew nId + if man.vvNew cell = some nId then 1 else 0 := by
    intro nId
    rw [occurrences_append, occurrences_cons, occurrences_nil, Nat.zero_add]
  unfold CAddrMan.placeCell
  cases occupied : man.vvNew cell with
  | none =>
    refine ⟨filled.rest, fun n => ?_, fun other => ?_⟩
    · rw [filled.mapInfo]
      refine congrArg (Option.map · man.saved[n]?) ?_
      funext entry
      rw [counted, occupied, if_neg (Option.some_ne_none _).symm, Nat.add_zero]
    · rw [filled.vvNew]
      by_cases same : other = cell
      · rw [same, if_neg fresh, if_pos (by simp), occupied, Option.map_none]
      · simp [same]
  | some nId =>
    obtain ⟨-, info, found, isNew, position⟩ := consistent.tabled.newCell cell nId occupied
    obtain ⟨written, below⟩ := consistent.mapUnkIds_eq numbered found isNew
    have few : (occurrences cells man.vvNew nId : Int) < addrmanNewBucketsPerAddress := by
      have references := consistent.tabled.references nId info found
      have part : occurrences (cells ++ [cell]) man.vvNew nId ≤
          occurrences newCells man.vvNew nId := started.sublist.countP_le
      rw [counted, if_pos occupied] at part
      omega
    have entry : next.infoAt (man.number nId) =
        { info.kept with
          nRefCount := occurrences cells man.vvNew nId
          nRandomPos := some (man.number nId) } := by
      rw [infoAt, filled.mapInfo, saved_number found]
      rfl
    have nextKey : next.nKey = man.nKey := by
      rw [filled.rest]
      exact nKey
    have inRange : (man.number nId : Int) < next.nNew := by
      rw [filled.rest]
      exact below.trans_eq nNew.symm
    have free : next.vvNew cell = none := by
      rw [filled.vvNew, if_neg fresh]
    have again : info.newCell hash next.nKey cell.1 = cell := by
      rw [nextKey]
      exact position.symm
    have placed := loadIndex_eq inRange entry again free few
    dsimp only
    rw [written, placed]
    refine ⟨?_, fun n => ?_, fun other => ?_⟩
    · rw [filled.rest]
    · rw [SortedMap.get?_insert]
      by_cases same : n = man.number nId
      · rw [if_pos same, same, saved_number found, Option.map_some, counted, if_pos occupied]
        rfl
      · rw [if_neg same, filled.mapInfo]
        cases there : man.saved[n]? with
        | none => rfl
        | some other =>
          have apart : ¬man.vvNew cell = some other.1 := by
            intro alike
            rw [occupied] at alike
            exact same ((number_eq there).symm.trans
              (congrArg man.number (Option.some.inj alike).symm))
          rw [Option.map_some, Option.map_some, counted, if_neg apart, Nat.add_zero]
    · dsimp only
      by_cases same : other = cell
      · rw [same, Function.update_self, if_pos (by simp), occupied, Option.map_some]
      · rw [Function.update_of_ne same, filled.vvNew]
        simp [same]

/-- The last loop of `Unserialize` goes over the cells. -/
theorem foldl_loadBucket
    (mapUnkIds : Nat → Nat) (base : CAddrMan) :
    (((List.range addrmanNewBucketCount).map (man.bucketIndices mapUnkIds)).zipIdx).foldl
        (loadBucket hash 1 addrmanNewBucketCount) base =
      newCells.foldl (placeCell hash man mapUnkIds) base := by
  have numbered : ((List.range addrmanNewBucketCount).map (man.bucketIndices mapUnkIds)).zipIdx =
      (List.range addrmanNewBucketCount).map fun bucket =>
        (man.bucketIndices mapUnkIds bucket, bucket) := by
    refine List.ext_getElem? fun bucket => ?_
    rw [List.getElem?_zipIdx, List.getElem?_map, List.getElem?_map, Option.map_map]
    by_cases inside : bucket < addrmanNewBucketCount
    · rw [List.getElem?_range inside, Option.map_some, Option.map_some, Nat.zero_add]
      rfl
    · rw [List.getElem?_eq_none (by simp only [List.length_range]; omega)]
      rfl
  have bucket : ∀ next bucket, loadBucket hash 1 addrmanNewBucketCount next
      (man.bucketIndices mapUnkIds bucket, bucket) =
        ((List.range addrmanBucketSize).map fun i => (bucket, i)).foldl
          (placeCell hash man mapUnkIds) next := by
    intro next bucket
    rw [loadBucket, bucketIndices, List.foldl_filterMap, List.foldl_map]
    refine congrArg (fun step => (List.range addrmanBucketSize).foldl step next) ?_
    funext next i
    rw [CAddrMan.placeCell]
    cases man.vvNew (bucket, i) with
    | none => rfl
    | some nId => rfl
  have cells : ∀ buckets positions : List Nat, buckets ×ˢ positions =
      buckets.flatMap fun bucket => positions.map fun i => (bucket, i) := fun _ _ => rfl
  rw [numbered, newCells, cells, List.foldl_map, List.foldl_flatMap]
  refine congrArg (fun step => (List.range addrmanNewBucketCount).foldl step base) ?_
  funext next number
  exact bucket next number

theorem Loose.placeCells
    (consistent : man.Consistent hash nonneg)
    (numbered : ∀ index entry, (newOf man.mapInfo.entries)[index]? = some entry →
      mapUnkIds entry.1 = index)
    (lists : Lists hash man (man.saved.map fun entry => entry.2.kept) base)
    (started : cells <+: newCells) :
    Filled man base cells (cells.foldl (CAddrMan.placeCell hash man mapUnkIds) base) := by
  induction cells using List.reverseRecOn with
  | nil =>
    refine ⟨rfl, fun n => ?_, fun cell => ?_⟩
    · rw [List.foldl_nil, lists.mapInfo, List.getElem?_map, Option.map_map]
      rfl
    · rw [List.foldl_nil, lists.vvNew, if_neg (List.not_mem_nil)]
  | append_singleton cells cell ih =>
    have filled := ih ((List.prefix_append cells [cell]).trans started)
    rw [List.foldl_append]
    exact consistent.placeCell numbered lists.nKey lists.nNew started filled

/-- The loops of `Unserialize` one after the other. -/
theorem load_eq
    {nVersion : UInt8} {nNew nTried nUBuckets : Int}
    (readNew : new.zipIdx.foldl (loadNew hash nVersion nUBuckets)
      { cleared with nNew := nNew, nTried := nTried } = loadedNew)
    (readTried : tried.foldl (loadTried hash) ({ loadedNew with nIdCount := nNew.toNat }, 0) =
      (last, lost))
    (readBuckets : buckets.zipIdx.foldl (loadBucket hash nVersion nUBuckets)
      { last with nTried := last.nTried - lost } = placed) :
    load hash cleared nVersion nNew nTried nUBuckets new tried buckets =
      (placed.mapInfo.entries.map Prod.fst).foldlM prune placed := by
  subst readNew
  unfold load
  dsimp only
  rw [readTried]
  rw [readBuckets]

/-- Nothing is deleted where every new entry has a reference. -/
theorem foldlM_prune
    (referenced : ∀ nId info, next.mapInfo.get? nId = some info →
      ¬(info.fInTried = false ∧ info.nRefCount = 0))
    (nIds : List Nat) :
    nIds.foldlM prune next = some next := by
  induction nIds with
  | nil => rfl
  | cons nId nIds ih =>
    have kept : next.prune nId = some next := by
      unfold prune
      cases found : next.mapInfo.get? nId with
      | none => rfl
      | some info => exact if_neg (referenced nId info found)
    rw [List.foldlM_cons, kept]
    exact ih

/-- The second manager has everything that the first one has, under other identifiers.  Its last
tries are zero, and its random order is another one. -/
structure Renumbered (number : Nat → Nat) (man next : CAddrMan) : Prop where
  nKey : next.nKey = man.nKey
  nNew : next.nNew = man.nNew
  nTried : next.nTried = man.nTried
  injective : ∀ first second, man.mapInfo.contains first = true →
    man.mapInfo.contains second = true → number first = number second → first = second
  mapInfo : ∀ nId info, man.mapInfo.get? nId = some info → ∃ nRandomPos,
    next.mapInfo.get? (number nId) = some { info with nLastTry := 0, nRandomPos := nRandomPos }
  surjective : ∀ n, next.mapInfo.contains n = true →
    ∃ nId, man.mapInfo.contains nId = true ∧ number nId = n
  mapAddr : ∀ addr, next.mapAddr addr = (man.mapAddr addr).map number
  vRandom : next.vRandom.Perm (man.vRandom.map number)
  vvTried : ∀ cell, next.vvTried cell = (man.vvTried cell).map number
  vvNew : ∀ cell, next.vvNew cell = (man.vvNew cell).map number

section

variable (consistent : man.Consistent hash nonneg)
include consistent

/-- The entry of an identifier when everything is read. -/
theorem Loose.info_eq
    (found : man.mapInfo.get? entry.1 = some entry.2)
    (n : Nat) :
    ({ entry.2.kept with
      nRefCount := occurrences newCells man.vvNew entry.1
      nRandomPos := some n } : CAddrInfo) =
        { entry.2 with nLastTry := 0, nRandomPos := some n } := by
  rw [← (consistent.tabled.references _ _ found).1]
  rfl

/-- What was read in a row, with all references, is what was written. -/
theorem Loose.renumbered
    (lists : Lists hash man (man.saved.map fun entry => entry.2.kept) base)
    (filled : Filled man base newCells next) :
    Renumbered man.number man next where
  nKey := by
    rw [filled.rest]
    exact lists.nKey
  nNew := by
    rw [filled.rest]
    exact lists.nNew
  nTried := by
    rw [filled.rest]
    exact lists.nTried
  injective := by
    intro first second firstThere secondThere same
    obtain ⟨firstInfo, firstFound⟩ := Option.isSome_iff_exists.mp firstThere
    obtain ⟨secondInfo, secondFound⟩ := Option.isSome_iff_exists.mp secondThere
    have here := saved_number firstFound
    rw [same, saved_number secondFound] at here
    exact (congrArg Prod.fst (Option.some.inj here)).symm
  mapInfo := by
    intro nId info found
    have entry := @Loose.info_eq hash nonneg man (nId, info) consistent found (man.number nId)
    refine ⟨some (man.number nId), ?_⟩
    rw [filled.mapInfo, saved_number found, Option.map_some, entry]
  surjective := by
    intro n there
    rw [SortedMap.contains, filled.mapInfo, Option.isSome_map] at there
    obtain ⟨⟨nId, info⟩, here⟩ := Option.isSome_iff_exists.mp there
    have found := mem_saved_iff.mp (List.mem_of_getElem? here)
    refine ⟨nId, ?_, number_eq here⟩
    rw [SortedMap.contains, found]
    rfl
  mapAddr := by
    intro addr
    rw [filled.rest]
    ext n
    rw [lists.mapAddr, Option.map_eq_some_iff]
    constructor
    · rintro ⟨info, here, same⟩
      rw [List.getElem?_map] at here
      obtain ⟨entry, there, rfl⟩ := Option.map_eq_some_iff.mp here
      have found := mem_saved_iff.mp (List.mem_of_getElem? there)
      exact ⟨entry.1, (consistent.indexed.addressed addr entry.1).mpr ⟨entry.2, found, same⟩,
        number_eq there⟩
    · rintro ⟨nId, here, rfl⟩
      obtain ⟨info, found, same⟩ := (consistent.indexed.addressed addr nId).mp here
      refine ⟨info.kept, ?_, same⟩
      rw [List.getElem?_map, saved_number found, Option.map_some]
  vRandom := by
    rw [filled.rest]
    rw [lists.vRandom, List.length_map, ← map_number_saved]
    exact ((consistent.indexed.vRandom_perm.trans (man.saved_perm.map Prod.fst).symm).map
      man.number).symm
  vvTried := by
    intro cell
    rw [filled.rest]
    ext n
    rw [lists.vvTried, Option.map_eq_some_iff]
    constructor
    · rintro ⟨info, here, inTried, position⟩
      rw [List.getElem?_map] at here
      obtain ⟨entry, there, rfl⟩ := Option.map_eq_some_iff.mp here
      have found := mem_saved_iff.mp (List.mem_of_getElem? there)
      refine ⟨entry.1, ?_, number_eq there⟩
      rw [← position]
      exact consistent.tabled.tried entry.1 entry.2 found inTried
    · rintro ⟨nId, here, rfl⟩
      obtain ⟨info, found, inTried, position⟩ := consistent.tabled.triedCell cell nId here
      refine ⟨info.kept, ?_, inTried, position.symm⟩
      rw [List.getElem?_map, saved_number found, Option.map_some]
  vvNew := by
    intro cell
    rw [filled.vvNew]
    by_cases inside : cell ∈ newCells
    · rw [if_pos inside]
    · have empty : man.vvNew cell = none := by
        rw [Option.eq_none_iff_forall_ne_some]
        intro nId here
        exact inside (consistent.tabled.newCell cell nId here).1
      rw [if_neg inside, empty, Option.map_none]

/-- What `Serialize` writes of a consistent manager is read back into a new one, with everything
under another identifier. -/
theorem Loose.restores
    (nVersion : Int32) (nKey : BitVec 256) :
    ∃ bytes loaded, man.serialize nVersion = some bytes ∧
      Reads ((empty nKey).unserialize hash) bytes loaded ∧ Renumbered man.number man loaded := by
  obtain ⟨mapUnkIds, bytes, written, numbered, reads⟩ :=
    @Loose.reads_unserialize hash nonneg man nVersion (empty nKey) consistent
  let counted : CAddrMan :=
    { (empty nKey).clear man.nKey with nNew := man.nNew, nTried := man.nTried }
  have starts : Lists hash man [] counted := by
    refine ⟨rfl, rfl, rfl, fun n => rfl, fun addr n => ?_, rfl, fun cell n => ?_, fun cell => rfl⟩
    · simp [counted, clear, empty]
    · simp [counted, clear, empty]
  have readNew := consistent.loadNewEntries (List.prefix_refl _) starts
  let loadedNew := ((newOf man.mapInfo.entries).map fun entry => entry.2.stored).zipIdx.foldl
    (CAddrMan.loadNew hash 1 addrmanNewBucketCount) counted
  have between : Lists hash man ((newOf man.mapInfo.entries).map fun entry => entry.2.kept)
      { loadedNew with nIdCount := man.nNew.toNat } :=
    ⟨readNew.nKey, readNew.nNew, readNew.nTried, readNew.mapInfo, readNew.mapAddr,
      readNew.vRandom, readNew.vvTried, readNew.vvNew⟩
  have identifiers : man.nNew.toNat = (newOf man.mapInfo.entries).length := by
    rw [consistent.nNew_eq, Int.toNat_natCast]
  obtain ⟨last, done, readTried, -⟩ :=
    consistent.loadTriedEntries (List.prefix_refl _) between identifiers
  let base : CAddrMan := { last with nTried := last.nTried - (0 : Nat) }
  have nTried : base.nTried = man.nTried := (Int.sub_zero _).trans readTried.nTried
  have lists : Lists hash man (man.saved.map fun entry => entry.2.kept) base :=
    ⟨readTried.nKey, readTried.nNew, nTried, readTried.mapInfo, readTried.mapAddr,
      readTried.vRandom, readTried.vvTried, readTried.vvNew⟩
  obtain ⟨placed, all⟩ : ∃ placed,
      newCells.foldl (CAddrMan.placeCell hash man mapUnkIds) base = placed := ⟨_, rfl⟩
  have filled := consistent.placeCells numbered lists (List.prefix_refl newCells)
  rw [all] at filled
  have referenced : ∀ nId info, placed.mapInfo.get? nId = some info →
      ¬(info.fInTried = false ∧ info.nRefCount = 0) := by
    rintro n info here ⟨isNew, unreferenced⟩
    rw [filled.mapInfo] at here
    obtain ⟨entry, there, rfl⟩ := Option.map_eq_some_iff.mp here
    have found := mem_saved_iff.mp (List.mem_of_getElem? there)
    have references := (consistent.tabled.references _ _ found).1
    have positive := consistent.tabled.referenced _ _ found isNew (Set.notMem_empty _)
    dsimp only at unreferenced
    omega
  have loads : load hash ((empty nKey).clear man.nKey) 1 man.nNew man.nTried addrmanNewBucketCount
      ((newOf man.mapInfo.entries).map fun entry => entry.2.stored)
      ((triedOf man.mapInfo.entries).map fun entry => entry.2.stored)
      ((List.range addrmanNewBucketCount).map (man.bucketIndices mapUnkIds)) = some placed := by
    rw [load_eq rfl done ((foldl_loadBucket mapUnkIds base).trans all)]
    exact foldlM_prune referenced _
  exact ⟨bytes, placed, written, reads placed loads, consistent.renumbered lists filled⟩

end

/-- After every sequence of calls, with positive times of successes: no assertion has failed, the
check finds nothing if there is a key and no attempt was made at a negative time, and what is
written is read back with everything under another identifier. -/
theorem run_check_restores
    {calls : List AddrManCall}
    (goodPositive : ∀ call ∈ calls, call.GoodPositive)
    (hash : BucketHash) (nKey : BitVec 256) :
    ∃ man, (empty nKey).run hash calls = some man ∧
      (nKey ≠ 0 → (∀ call ∈ calls, call.AttemptNonneg) → man.check_ hash = 0) ∧
      ∀ (nVersion : Int32) (fresh : BitVec 256), ∃ number bytes loaded,
        man.serialize nVersion = some bytes ∧
          Reads ((empty fresh).unserialize hash) bytes loaded ∧ Renumbered number man loaded := by
  obtain ⟨man, done, consistent, sameKey⟩ :=
    (consistent_empty hash (∀ call ∈ calls, call.AttemptNonneg) nKey).run goodPositive id
  refine ⟨man, done, ?_, ?_⟩
  · intro keyed attemptNonneg
    exact consistent.check_ attemptNonneg (sameKey.trans_ne keyed)
  · intro nVersion fresh
    obtain ⟨bytes, loaded, written, reads, renumbered⟩ := consistent.restores nVersion fresh
    exact ⟨man.number, bytes, loaded, written, reads, renumbered⟩

/-- All hashes are zero. -/
def zeroHash : BucketHash where
  triedBucket := fun _ _ => 0
  newBucket := fun _ _ _ => 0
  bucketPosition := fun _ _ _ _ => 0

/-- An address that can be routed, at a time. -/
def routableAddress (nTime : UInt32) : CAddress where
  service := ⟨⟨[0, 0, 0, 0, 0, 0, 0, 0, 0, 0, 0xff, 0xff, 8, 8, 8, 8], by decide⟩, 51572⟩
  nServices := 1
  nTime := nTime
  nLastTry := 0

/-- The check returns its codes for an attempt at a negative time and for a manager whose key is
null. -/
theorem check_negativeAttempt_nullKey :
    (((empty 1).run zeroHash [.add (routableAddress 1) CNetAddr.null 0 0 0 0,
        .attempt (routableAddress 1).service (-1)]).map fun man => man.check_ zeroHash) =
      some (-6) ∧
    (((empty 0).run zeroHash []).map fun man => man.check_ zeroHash) = some (-16) := by
  have isNull : (empty 0).nKey = 0 := rfl
  have nullKey : (empty 0).check_ zeroHash = -16 := by
    rw [(consistent_empty zeroHash True 0).check_eq trivial, if_pos isNull]
  exact ⟨rfl, congrArg some nullKey⟩

/-- An address is learned, tried and found good. -/
def learnedCalls : List AddrManCall :=
  [.add (routableAddress 1) CNetAddr.null 0 0 0 0, .attempt (routableAddress 1).service 5,
    .good (routableAddress 1).service 7 0]

theorem run_check_restores_learned :
    ∃ man, (empty 1).run zeroHash learnedCalls = some man ∧ man.check_ zeroHash = 0 ∧
      ∃ number bytes loaded, man.serialize 1 = some bytes ∧
        Reads ((empty 2).unserialize zeroHash) bytes loaded ∧ Renumbered number man loaded := by
  have goodPositive : ∀ call ∈ learnedCalls, call.GoodPositive := by
    simp [learnedCalls, AddrManCall.GoodPositive]
  have attemptNonneg : ∀ call ∈ learnedCalls, call.AttemptNonneg := by
    simp [learnedCalls, AddrManCall.AttemptNonneg]
  obtain ⟨man, done, checked, restored⟩ := run_check_restores goodPositive zeroHash 1
  exact ⟨man, done, checked (by decide) attemptNonneg, restored 1 2⟩

end CAddrMan

end ColossusCoin
