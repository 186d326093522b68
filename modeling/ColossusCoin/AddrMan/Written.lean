import ColossusCoin.AddrMan.Check
import ColossusCoin.AddrMan.Stream

/-!
# What is written of the address manager

The entries are written by kind, and the new ones are numbered in their order.  What is written of
an entry is read back without its last try and what is in memory only.
-/

namespace ColossusCoin

open ByteReaders

/-- The entry as it is read back. -/
def CAddrInfo.stored (info : CAddrInfo) : CAddrInfo :=
  { info with nLastTry := 0, nRefCount := 0, fInTried := false, nRandomPos := none }

theorem reads_addr (addr : CNetAddr) : Reads CNetAddr.unserialize addr.ip addr := by
  intro rest
  have enough : 16 ≤ (addr.ip ++ rest).length := by
    rw [List.length_append, addr.length_ip]
    omega
  have taken : (addr.ip ++ rest).take 16 = addr.ip := by
    rw [← addr.length_ip, List.take_left]
  have dropped : (addr.ip ++ rest).drop 16 = rest := by
    rw [← addr.length_ip, List.drop_left]
  change CNetAddr.unserialize (addr.ip ++ rest) = some (addr, rest)
  rw [CNetAddr.unserialize, dif_pos enough]
  simp only [taken, dropped]

theorem reads_service (service : NetService) :
    Reads NetService.unserialize service.serialize service := by
  have bounded := service.port.toNat_lt
  have whole : UInt16.ofNat (256 * (UInt8.ofNat (service.port.toNat / 256)).toNat +
      (UInt8.ofNat service.port.toNat).toNat) = service.port := by
    have digits : 256 * (UInt8.ofNat (service.port.toNat / 256)).toNat +
        (UInt8.ofNat service.port.toNat).toNat = service.port.toNat := by
      rw [UInt8.toNat_ofNat', UInt8.toNat_ofNat']
      omega
    rw [digits, UInt16.ofNat_toNat]
  have steps : Reads NetService.unserialize service.serialize ⟨service.addr, UInt16.ofNat
      (256 * (UInt8.ofNat (service.port.toNat / 256)).toNat +
        (UInt8.ofNat service.port.toNat).toNat)⟩ :=
    (reads_addr service.addr).bind _ ((reads_readByte _).bind _ ((reads_readByte _).map _))
  rwa [whole] at steps

theorem reads_int32 (n : Int32) : Reads (readSigned 4) (writeSigned 4 n.toInt) n.toInt :=
  reads_writeSigned (by have := n.le_toInt; omega) (by have := n.toInt_lt; omega)

theorem reads_int64 (n : Int64) : Reads (readSigned 8) (writeSigned 8 n.toInt) n.toInt :=
  reads_writeSigned (by have := n.le_toInt; omega) (by have := n.toInt_lt; omega)

theorem reads_address (nVersion : Int32) (addr : CAddress) :
    Reads CAddress.unserialize (addr.serialize nVersion) { addr with nLastTry := 0 } := by
  have time := @reads_littleEndian 4 addr.nTime.toNat addr.nTime.toNat_lt
  have services := @reads_littleEndian 8 addr.nServices.toNat addr.nServices.toNat_lt
  have whole : ({ addr with nLastTry := 0 } : CAddress) =
      { service := addr.service, nServices := UInt64.ofNat addr.nServices.toNat
        nTime := UInt32.ofNat addr.nTime.toNat, nLastTry := 0 } := by
    rw [UInt64.ofNat_toNat, UInt32.ofNat_toNat]
  rw [whole]
  exact (reads_int32 nVersion).bind _ (time.bind _ (services.bind _
    ((reads_service addr.service).map _)))

theorem reads_info (nVersion : Int32) (info : CAddrInfo) :
    Reads CAddrInfo.unserialize (info.serialize nVersion) info.stored := by
  have whole : info.stored =
      { toCAddress := { info.toCAddress with nLastTry := 0 }, source := info.source
        nLastSuccess := Int64.ofInt info.nLastSuccess.toInt
        nAttempts := Int32.ofInt info.nAttempts.toInt, nRefCount := 0, fInTried := false
        nRandomPos := none } := by
    rw [Int64.ofInt_toInt, Int32.ofInt_toInt]
    rfl
  rw [whole]
  exact (reads_address nVersion info.toCAddress).bind _ ((reads_addr info.source).bind _
    ((reads_int64 info.nLastSuccess).bind _ ((reads_int32 info.nAttempts).map _)))

namespace CAddrMan

variable {hash : BucketHash} {nonneg : Prop} {man : CAddrMan} {nVersion : Int32}

/-- The new ones of some entries. -/
def newOf (entries : List (Nat × CAddrInfo)) : List (Nat × CAddrInfo) :=
  entries.filter fun entry => !entry.2.fInTried

/-- The tried ones of some entries. -/
def triedOf (entries : List (Nat × CAddrInfo)) : List (Nat × CAddrInfo) :=
  entries.filter fun entry => entry.2.fInTried

/-- The bytes of some entries. -/
def writeEntries (nVersion : Int32) (entries : List (Nat × CAddrInfo)) : List UInt8 :=
  entries.flatMap fun entry => entry.2.serialize nVersion

theorem newOf_snoc (past : List (Nat × CAddrInfo)) (entry : Nat × CAddrInfo) :
    newOf (past ++ [entry]) = newOf past ++ if entry.2.fInTried then [] else [entry] := by
  rw [newOf, List.filter_append]
  cases inTried : entry.2.fInTried with
  | false => simp [newOf, inTried]
  | true => simp [newOf, inTried]

theorem triedOf_snoc (past : List (Nat × CAddrInfo)) (entry : Nat × CAddrInfo) :
    triedOf (past ++ [entry]) = triedOf past ++ if entry.2.fInTried then [entry] else [] := by
  rw [triedOf, List.filter_append]
  cases inTried : entry.2.fInTried with
  | false => simp [triedOf, inTried]
  | true => simp [triedOf, inTried]

theorem writeEntries_append (nVersion : Int32) (first second : List (Nat × CAddrInfo)) :
    writeEntries nVersion (first ++ second) =
      writeEntries nVersion first ++ writeEntries nVersion second :=
  List.flatMap_append

theorem writeEntries_singleton (nVersion : Int32) (entry : Nat × CAddrInfo) :
    writeEntries nVersion [entry] = entry.2.serialize nVersion :=
  List.flatMap_singleton _ _

theorem Loose.nNew_eq
    (consistent : man.Consistent hash nonneg) :
    man.nNew = (newOf man.mapInfo.entries).length := by
  rw [newOf, ← List.countP_eq_length_filter, ← consistent.tabled.nNew_eq, Int.add_zero]

theorem Loose.nTried_eq
    (consistent : man.Consistent hash nonneg) :
    man.nTried = (triedOf man.mapInfo.entries).length := by
  rw [triedOf, ← List.countP_eq_length_filter, consistent.tabled.nTried_eq]

theorem Loose.nRefCount_eq_zero_iff
    (consistent : man.Consistent hash nonneg)
    (member : entry ∈ man.mapInfo.entries) :
    entry.2.nRefCount = 0 ↔ entry.2.fInTried = true := by
  have found := (man.mapInfo.get?_eq_some_iff _ _).mpr member
  constructor
  · intro unreferenced
    by_contra isNew
    have referenced := consistent.tabled.referenced _ _ found (Bool.eq_false_iff.mpr isNew)
      (Set.notMem_empty _)
    omega
  · intro inTried
    rw [(consistent.tabled.references _ _ found).1,
      Occupancy.occurrences_eq_zero_iff.mpr fun cell _ =>
        consistent.tabled.vvNew_ne found (.inl inTried)]
    rfl

/-- Before an entry that is still to come there are fewer of its kind than in the end. -/
theorem length_newOf_lt
    (started : past ++ [entry] <+: man.mapInfo.entries)
    (isNew : entry.2.fInTried = false) :
    (newOf past).length < (newOf man.mapInfo.entries).length := by
  have counted : (newOf (past ++ [entry])).length ≤ (newOf man.mapInfo.entries).length :=
    (started.sublist.filter _).length_le
  rw [newOf_snoc, isNew, if_neg Bool.false_ne_true, List.length_append] at counted
  exact counted

theorem length_triedOf_lt
    (started : past ++ [entry] <+: man.mapInfo.entries)
    (inTried : entry.2.fInTried = true) :
    (triedOf past).length < (triedOf man.mapInfo.entries).length := by
  have counted : (triedOf (past ++ [entry])).length ≤ (triedOf man.mapInfo.entries).length :=
    (started.sublist.filter _).length_le
  rw [triedOf_snoc, inTried, if_pos rfl, List.length_append] at counted
  exact counted

theorem Loose.serializeNew
    (consistent : man.Consistent hash nonneg)
    (started : past <+: man.mapInfo.entries) :
    ∃ mapUnkIds, past.foldlM (man.serializeNew nVersion) (fun _ => 0, 0, []) =
        some (mapUnkIds, (newOf past).length, writeEntries nVersion (newOf past)) ∧
      ∀ index entry, (newOf past)[index]? = some entry → mapUnkIds entry.1 = index := by
  induction past using List.reverseRecOn with
  | nil => exact ⟨fun _ => 0, rfl, fun index entry none => nomatch none⟩
  | append_singleton past entry ih =>
    obtain ⟨mapUnkIds, done, numbered⟩ :=
      ih ((List.prefix_append past [entry]).trans started)
    have member : entry ∈ man.mapInfo.entries := started.subset (by simp)
    have unreferenced := consistent.nRefCount_eq_zero_iff member
    have fresh : ∀ other ∈ past, other.1 ≠ entry.1 := by
      have nodup := man.mapInfo.nodup_keys.sublist (started.sublist.map Prod.fst)
      rw [List.map_append, List.nodup_append'] at nodup
      intro other earlier same
      exact nodup.2.2 (List.mem_map_of_mem earlier) (by simp [same])
    have kept : ∀ index other, (newOf past)[index]? = some other →
        Function.update mapUnkIds entry.1 (newOf past).length other.1 = index := by
      intro index other here
      have earlier := List.mem_of_mem_filter (List.mem_of_getElem? here)
      rw [Function.update_of_ne (fresh other earlier)]
      exact numbered index other here
    have result : (past ++ [entry]).foldlM (man.serializeNew nVersion) (fun _ => 0, 0, []) =
        man.serializeNew nVersion
          (mapUnkIds, (newOf past).length, writeEntries nVersion (newOf past)) entry := by
      rw [List.foldlM_append, done]
      exact bind_pure (man.serializeNew nVersion _ entry)
    rw [result, newOf_snoc]
    unfold CAddrMan.serializeNew
    by_cases inTried : entry.2.fInTried = true
    · rw [if_pos (unreferenced.mpr inTried), if_pos inTried, List.append_nil]
      exact ⟨_, rfl, kept⟩
    · have isNew := Bool.eq_false_iff.mpr inTried
      have notLast : ¬((newOf past).length : Int) = man.nNew := by
        have counted := length_newOf_lt started isNew
        rw [consistent.nNew_eq]
        omega
      rw [if_neg fun none => inTried (unreferenced.mp none), if_neg notLast, if_neg inTried,
        writeEntries_append, writeEntries_singleton, List.length_append]
      refine ⟨_, rfl, fun index other here => ?_⟩
      rw [List.getElem?_append] at here
      split_ifs at here with earlier
      · exact kept index other here
      · rw [List.getElem?_singleton] at here
        split_ifs at here with last
        cases here
        rw [Function.update_self]
        dsimp only
        omega

theorem Loose.serializeTried
    (consistent : man.Consistent hash nonneg)
    (started : past <+: man.mapInfo.entries) :
    past.foldlM (man.serializeTried nVersion) (0, []) =
      some ((triedOf past).length, writeEntries nVersion (triedOf past)) := by
  induction past using List.reverseRecOn with
  | nil => rfl
  | append_singleton past entry ih =>
    have done := ih ((List.prefix_append past [entry]).trans started)
    have result : (past ++ [entry]).foldlM (man.serializeTried nVersion) (0, []) =
        man.serializeTried nVersion
          ((triedOf past).length, writeEntries nVersion (triedOf past)) entry := by
      rw [List.foldlM_append, done]
      exact bind_pure (man.serializeTried nVersion _ entry)
    rw [result, triedOf_snoc]
    unfold CAddrMan.serializeTried
    by_cases inTried : entry.2.fInTried = true
    · have notLast : ¬((triedOf past).length : Int) = man.nTried := by
        have counted := length_triedOf_lt started inTried
        rw [consistent.nTried_eq]
        omega
      rw [if_pos inTried, if_neg notLast, if_pos inTried, writeEntries_append,
        writeEntries_singleton, List.length_append]
      rfl
    · rw [if_neg inTried, if_neg inTried, List.append_nil]

theorem Loose.length_newOf_le
    (consistent : man.Consistent hash nonneg) :
    (newOf man.mapInfo.entries).length ≤ 65536 := by
  have nodup : ((newOf man.mapInfo.entries).map Prod.fst).Nodup :=
    man.mapInfo.nodup_keys.sublist (List.filter_sublist.map Prod.fst)
  have occurs : ∀ nId ∈ (newOf man.mapInfo.entries).map Prod.fst,
      0 < Occupancy.occurrences newCells man.vvNew nId := by
    intro nId member
    obtain ⟨entry, listed, rfl⟩ := List.mem_map.mp member
    obtain ⟨inside, isNew⟩ := List.mem_filter.mp listed
    have found := (man.mapInfo.get?_eq_some_iff _ _).mpr inside
    have references := (consistent.tabled.references _ _ found).1
    have referenced := consistent.tabled.referenced _ _ found (Bool.not_eq_true' _ ▸ isNew)
      (Set.notMem_empty _)
    omega
  have bounded := Occupancy.length_le_of_occurs nodup occurs
  rw [List.length_map] at bounded
  have cells : newCells.length = 65536 := by
    rw [newCells, List.length_product, List.length_range, List.length_range]
    rfl
  omega

/-- There are no more tried entries than cells of the tried buckets. -/
theorem Loose.length_triedOf_le
    (consistent : man.Consistent hash nonneg) :
    (triedOf man.mapInfo.entries).length ≤ 16384 := by
  have nodup : ((triedOf man.mapInfo.entries).map Prod.fst).Nodup :=
    man.mapInfo.nodup_keys.sublist (List.filter_sublist.map Prod.fst)
  have occurs : ∀ nId ∈ (triedOf man.mapInfo.entries).map Prod.fst,
      0 < Occupancy.occurrences triedCells man.vvTried nId := by
    intro nId member
    obtain ⟨entry, listed, rfl⟩ := List.mem_map.mp member
    obtain ⟨inside, inTried⟩ := List.mem_filter.mp listed
    exact (consistent.tabled.occurrences_vvTried _).mpr
      ⟨entry.2, (man.mapInfo.get?_eq_some_iff _ _).mpr inside, inTried⟩
  have bounded := Occupancy.length_le_of_occurs nodup occurs
  rw [List.length_map] at bounded
  have cells : triedCells.length = 16384 := by
    rw [triedCells, List.length_product, List.length_range, List.length_range]
    rfl
  omega

/-- An `int` that is not large is read back. -/
theorem reads_natCast
    {n : Nat}
    (small : n < 2 ^ 31) :
    Reads (readSigned 4) (writeSigned 4 n) n :=
  reads_writeSigned (by omega) (by omega)

theorem reads_bucket
    (few : indices.length ≤ addrmanBucketSize)
    (small : ∀ index ∈ indices, 0 ≤ index ∧ index < 2 ^ 31) :
    Reads readBucket (writeBucket indices) indices := by
  have size : addrmanBucketSize = 64 := rfl
  have each := @reads_readMany Int (readSigned 4) (writeSigned 4) indices fun index member =>
    reads_writeSigned (by have := small index member; omega) (by have := small index member; omega)
  have length : (indices.length : Int).toNat = indices.length := Int.toNat_natCast _
  have count : Reads (readSigned 4) (writeSigned 4 indices.length) (indices.length : Int) :=
    reads_natCast (by omega)
  exact count.bind (fun nSize => readMany (readSigned 4) nSize.toNat) (by rw [length]; exact each)

theorem reads_entries (nVersion : Int32) (entries : List (Nat × CAddrInfo)) :
    Reads (readMany CAddrInfo.unserialize entries.length) (writeEntries nVersion entries)
      (entries.map fun entry => entry.2.stored) := by
  have each := @reads_readMany_map CAddrInfo CAddrInfo.unserialize (CAddrInfo.serialize nVersion)
    (entries.map Prod.snd) CAddrInfo.stored fun info _ => reads_info nVersion info
  rwa [List.length_map, List.flatMap_map, List.map_map] at each

theorem Loose.bucketIndices_bounds
    (consistent : man.Consistent hash nonneg)
    (numbered : ∀ index entry, (newOf man.mapInfo.entries)[index]? = some entry →
      mapUnkIds entry.1 = index)
    (index : Int)
    (member : index ∈ man.bucketIndices mapUnkIds bucket) :
    0 ≤ index ∧ index < (newOf man.mapInfo.entries).length := by
  obtain ⟨i, -, placed⟩ := List.mem_filterMap.mp member
  obtain ⟨nId, here, rfl⟩ := Option.map_eq_some_iff.mp placed
  obtain ⟨-, info, found, isNew, -⟩ := consistent.tabled.newCell _ _ here
  have listed : (nId, info) ∈ newOf man.mapInfo.entries :=
    List.mem_filter.mpr ⟨(man.mapInfo.get?_eq_some_iff _ _).mp found, by simp [isNew]⟩
  obtain ⟨position, at_⟩ := List.mem_iff_getElem?.mp listed
  have bound := (List.getElem?_eq_some_iff.mp at_).1
  have number : mapUnkIds nId = position := numbered position (nId, info) at_
  omega

theorem Loose.reads_unserialize
    {start : CAddrMan}
    (consistent : man.Consistent hash nonneg) :
    ∃ mapUnkIds bytes, man.serialize nVersion = some bytes ∧
      (∀ index entry, (newOf man.mapInfo.entries)[index]? = some entry →
        mapUnkIds entry.1 = index) ∧
      ∀ loaded, load hash (start.clear man.nKey) 1 man.nNew man.nTried addrmanNewBucketCount
          ((newOf man.mapInfo.entries).map fun entry => entry.2.stored)
          ((triedOf man.mapInfo.entries).map fun entry => entry.2.stored)
          ((List.range addrmanNewBucketCount).map (man.bucketIndices mapUnkIds)) = some loaded →
        Reads (start.unserialize hash) bytes loaded := by
  obtain ⟨mapUnkIds, new, numbered⟩ :=
    @Loose.serializeNew hash nonneg man nVersion _ consistent (List.prefix_refl _)
  have tried := @Loose.serializeTried hash nonneg man nVersion _ consistent (List.prefix_refl _)
  let bytes := [1] ++ ([32] ++ (littleEndian 32 man.nKey.toNat ++ (writeSigned 4 man.nNew ++
    (writeSigned 4 man.nTried ++ (writeSigned 4 nUBucketsWritten ++
      (writeEntries nVersion (newOf man.mapInfo.entries) ++
        (writeEntries nVersion (triedOf man.mapInfo.entries) ++
          ((List.range addrmanNewBucketCount).map (man.bucketIndices mapUnkIds)).flatMap
            writeBucket)))))))
  refine ⟨mapUnkIds, bytes, ?_, numbered, ?_⟩
  · rw [CAddrMan.serialize, new, tried]
    rfl
  · intro loaded loads
    have fewNew := consistent.length_newOf_le
    have fewTried := consistent.length_triedOf_le
    have nNew := consistent.nNew_eq
    have nTried := consistent.nTried_eq
    have readNew : Reads (readMany CAddrInfo.unserialize man.nNew.toNat)
        (writeEntries nVersion (newOf man.mapInfo.entries))
        ((newOf man.mapInfo.entries).map fun entry => entry.2.stored) := by
      rw [nNew, Int.toNat_natCast]
      exact reads_entries nVersion (newOf man.mapInfo.entries)
    have readTried : Reads (readMany CAddrInfo.unserialize man.nTried.toNat)
        (writeEntries nVersion (triedOf man.mapInfo.entries))
        ((triedOf man.mapInfo.entries).map fun entry => entry.2.stored) := by
      rw [nTried, Int.toNat_natCast]
      exact reads_entries nVersion (triedOf man.mapInfo.entries)
    have countNew : Reads (readSigned 4) (writeSigned 4 man.nNew) man.nNew := by
      rw [nNew]
      exact reads_natCast (by omega)
    have countTried : Reads (readSigned 4) (writeSigned 4 man.nTried) man.nTried := by
      rw [nTried]
      exact reads_natCast (by omega)
    have countBuckets : Reads (readSigned 4) (writeSigned 4 nUBucketsWritten)
        (nUBucketsWritten : Int) := reads_natCast (by decide)
    have unmasked : unmaskBuckets 1 nUBucketsWritten = addrmanNewBucketCount := by decide
    have key := @reads_littleEndian 32 man.nKey.toNat man.nKey.isLt
    have readBuckets : Reads (readMany readBucket (unmaskBuckets 1 nUBucketsWritten).toNat)
        (((List.range addrmanNewBucketCount).map (man.bucketIndices mapUnkIds)).flatMap
          writeBucket) ((List.range addrmanNewBucketCount).map (man.bucketIndices mapUnkIds)) := by
      rw [unmasked, Int.toNat_natCast]
      have each := @reads_readMany _ readBucket writeBucket
        ((List.range addrmanNewBucketCount).map (man.bucketIndices mapUnkIds)) (by
          intro indices member
          obtain ⟨bucket, -, rfl⟩ := List.mem_map.mp member
          refine reads_bucket ?_ fun index inside => ?_
          · exact (List.length_filterMap_le _ _).trans_eq List.length_range
          · have bounds := consistent.bucketIndices_bounds numbered index inside
            omega)
      rwa [List.length_map, List.length_range] at each
    refine (reads_readByte 1).bind _ ((reads_readByte 32).bind _ ?_)
    rw [if_neg (not_not_intro rfl)]
    refine key.bind _ (countNew.bind _ (countTried.bind _ (countBuckets.bind _
      (readNew.bind _ (readTried.bind _ ?_)))))
    -- The buckets are read last, and handed on.
    rw [← List.append_nil (List.flatMap _ _)]
    refine readBuckets.bind _ ?_
    rw [BitVec.ofNat_toNat, BitVec.setWidth_eq, unmasked, loads]
    exact Reads.pure loaded

end CAddrMan

end ColossusCoin
