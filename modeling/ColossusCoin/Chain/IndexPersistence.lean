import ColossusCoin.Chain.DiskBlockIndex

/-!
# What survives on disk

An entry that is written and read comes back with the fields that were written, and the default
for the others.  So it comes back as it was exactly where the fields that are not written hold
their defaults, and the hash of the proof of stake is never written.
-/

namespace ColossusCoin

open ByteReaders

/-- Every field is in the range of its type. -/
structure LastingIndex.InRange (index : LastingIndex) : Prop where
  nHeight : -2 ^ 31 ≤ index.nHeight ∧ index.nHeight < 2 ^ 31
  nStatus : index.nStatus < 2 ^ 32
  nTx : index.nTx < 2 ^ 32
  nFile : -2 ^ 31 ≤ index.nFile ∧ index.nFile < 2 ^ 31
  nDataPos : index.nDataPos < 2 ^ 32
  nUndoPos : index.nUndoPos < 2 ^ 32
  nMint : -2 ^ 63 ≤ index.nMint ∧ index.nMint < 2 ^ 63
  nMoneySupply : -2 ^ 63 ≤ index.nMoneySupply ∧ index.nMoneySupply < 2 ^ 63
  nFlags : index.nFlags < 2 ^ 32
  nStakeModifier : index.nStakeModifier < 2 ^ 64
  prevoutStake : index.prevoutStake.hash < 2 ^ 256 ∧ index.prevoutStake.n < 2 ^ 32
  nStakeTime : index.nStakeTime < 2 ^ 32
  nVersion : -2 ^ 31 ≤ index.nVersion ∧ index.nVersion < 2 ^ 31
  hashMerkleRoot : index.hashMerkleRoot < 2 ^ 256
  nTime : index.nTime < 2 ^ 32
  nBits : index.nBits < 2 ^ 32
  nNonce : index.nNonce < 2 ^ 32
  nAccumulatorCheckpoint : index.nAccumulatorCheckpoint < 2 ^ 256
  mapZerocoinSupply : ∀ entry ∈ index.mapZerocoinSupply.entries,
    (∃ denom : CoinDenomination, entry.1 = denom.toInt) ∧ -2 ^ 63 ≤ entry.2 ∧ entry.2 < 2 ^ 63
  vMintDenominationsInBlock : index.vMintDenominationsInBlock.length < 2 ^ 64

namespace CDiskBlockIndex

variable {index written : CDiskBlockIndex}

theorem reads_writePositions
    (inRange : written.InRange) :
    Reads (readPositions index) written.writePositions
      { index with
        nHeight := varIntOfInt written.nHeight
        nStatus := written.nStatus
        nTx := written.nTx
        nFile := if written.haveData || written.haveUndo then
          (varIntOfInt written.nFile : Int) else index.nFile
        nDataPos := if written.haveData then written.nDataPos else index.nDataPos
        nUndoPos := if written.haveUndo then written.nUndoPos else index.nUndoPos } := by
  have height := reads_varIntOfInt inRange.nHeight.2
  have status := @reads_writeVarInt 32 written.nStatus inRange.nStatus
  have count := @reads_writeVarInt 32 written.nTx inRange.nTx
  have file := @reads_writeIf _ readVarIntSigned _ _ (written.haveData || written.haveUndo)
    index.nFile fun _ => reads_varIntOfInt inRange.nFile.2
  have data := @reads_writeIf _ (readVarInt 32) _ _ written.haveData index.nDataPos
    fun _ => reads_writeVarInt inRange.nDataPos
  have undo := @reads_writeIf _ (readVarInt 32) _ _ written.haveUndo index.nUndoPos
    fun _ => reads_writeVarInt inRange.nUndoPos
  exact height.bind _ (status.bind _ (count.bind _ (file.bind _ (data.bind _ (undo.map _)))))

theorem reads_writeOutPoint
    (hash : outpoint.hash < 2 ^ 256)
    (n : outpoint.n < 2 ^ 32) :
    Reads readOutPoint (writeOutPoint outpoint) outpoint := by
  have first := @reads_littleEndian 32 outpoint.hash hash
  have second := @reads_littleEndian 4 outpoint.n n
  exact first.bind _ (second.map _)

theorem reads_writeStake
    (inRange : written.InRange)
    (cleared : index.hashProofOfStake = 0) :
    Reads (readStake index) written.writeStake
      { index with
        nMint := written.nMint
        nMoneySupply := written.nMoneySupply
        nFlags := written.nFlags
        nStakeModifier := written.nStakeModifier
        prevoutStake := if written.isProofOfStake then written.prevoutStake else COutPoint.null
        nStakeTime := if written.isProofOfStake then written.nStakeTime else 0
        hashProofOfStake := 0 } := by
  have mint := @reads_writeSigned 8 written.nMint (by have := inRange.nMint; omega)
    (by have := inRange.nMint; omega)
  have supply := @reads_writeSigned 8 written.nMoneySupply
    (by have := inRange.nMoneySupply; omega) (by have := inRange.nMoneySupply; omega)
  have flags := @reads_littleEndian 4 written.nFlags inRange.nFlags
  have modifier := @reads_littleEndian 8 written.nStakeModifier inRange.nStakeModifier
  have prevout := @reads_writeIf _ readOutPoint _ _ written.isProofOfStake COutPoint.null
    fun _ => reads_writeOutPoint inRange.prevoutStake.1 inRange.prevoutStake.2
  have time := @reads_writeIf _ (readLittleEndian 4) _ _ written.isProofOfStake 0
    fun _ => reads_littleEndian inRange.nStakeTime
  have whole : Reads (readStake index) written.writeStake { index with
      nMint := written.nMint
      nMoneySupply := written.nMoneySupply
      nFlags := written.nFlags
      nStakeModifier := written.nStakeModifier
      prevoutStake := if written.isProofOfStake then written.prevoutStake else COutPoint.null
      nStakeTime := if written.isProofOfStake then written.nStakeTime else 0
      hashProofOfStake := if written.isProofOfStake then index.hashProofOfStake else 0 } :=
    mint.bind _ (supply.bind _ (flags.bind _ (modifier.bind _ (prevout.bind _ (time.map _)))))
  rwa [cleared, ite_self] at whole

theorem reads_writeHeader
    (inRange : written.InRange)
    (hashPrev : written.hashPrev < 2 ^ 256)
    (hashNext : written.hashNext < 2 ^ 256) :
    Reads (readHeader index) written.writeHeader
      { index with
        nVersion := written.nVersion
        hashPrev := written.hashPrev
        hashNext := written.hashNext
        hashMerkleRoot := written.hashMerkleRoot
        nTime := written.nTime
        nBits := written.nBits
        nNonce := written.nNonce } := by
  have version := @reads_writeSigned 4 written.nVersion (by have := inRange.nVersion; omega)
    (by have := inRange.nVersion; omega)
  have prev := @reads_littleEndian 32 written.hashPrev hashPrev
  have next := @reads_littleEndian 32 written.hashNext hashNext
  have root := @reads_littleEndian 32 written.hashMerkleRoot inRange.hashMerkleRoot
  have time := @reads_littleEndian 4 written.nTime inRange.nTime
  have bits := @reads_littleEndian 4 written.nBits inRange.nBits
  have nonce := @reads_littleEndian 4 written.nNonce inRange.nNonce
  exact version.bind _ (prev.bind _ (next.bind _ (root.bind _ (time.bind _ (bits.bind _
    (nonce.map _))))))

theorem reads_writeDenomination (denom : CoinDenomination) :
    Reads readDenomination (writeDenomination denom) denom := by
  have least : -256 ^ 4 ≤ 2 * denom.toInt := by cases denom <;> decide
  have most : 2 * denom.toInt < 256 ^ 4 := by cases denom <;> decide
  have steps := (reads_writeSigned least most).map CoinDenomination.ofInt
  rwa [CoinDenomination.ofInt_toInt] at steps

theorem reads_writeSupply
    (key : ∃ denom : CoinDenomination, entry.1 = denom.toInt)
    (least : -2 ^ 63 ≤ entry.2)
    (most : entry.2 < 2 ^ 63) :
    Reads readSupply (writeSupply entry) entry := by
  obtain ⟨denom, isKey⟩ := key
  have value := @reads_writeSigned 8 entry.2 (by omega) (by omega)
  have key := reads_writeDenomination denom
  rw [writeDenomination, ← isKey] at key
  have pair : (denom.toInt, entry.2) = entry := by rw [← isKey]
  have after := value.map fun value => (denom.toInt, value)
  rw [pair] at after
  exact key.bind (fun denom => readSigned 8 >>= fun value => pure (denom.toInt, value)) after

/-- Entries in the order of their keys make the map that they come from. -/
theorem entries_foldl_insertSupply
    {supply : SortedMap Int Int} {rest : List (Int × Int)}
    (sorted : (supply.entries ++ rest).Pairwise fun first second => first.1 < second.1) :
    (rest.foldl insertSupply supply).entries = supply.entries ++ rest := by
  induction rest generalizing supply with
  | nil => rw [List.foldl_nil, List.append_nil]
  | cons entry rest ih =>
    have below : ∀ other ∈ supply.entries, other.1 < entry.1 := by
      intro other member
      exact (List.pairwise_append.mp sorted).2.2 other member entry List.mem_cons_self
    have inserted : (insertSupply supply entry).entries = supply.entries ++ [entry] := by
      have absent : supply.contains entry.1 = false := by
        rw [SortedMap.contains, SortedMap.get?_eq_none_of_above below, Option.isSome_none]
      rw [insertSupply, absent, if_neg Bool.false_ne_true, SortedMap.entries_insert_of_above below]
    rw [List.foldl_cons, ih (by rwa [inserted, List.append_assoc]), inserted,
      List.append_assoc, List.singleton_append]

theorem length_supply_le
    (inRange : written.InRange) :
    written.mapZerocoinSupply.entries.length ≤ maxSize := by
  have values : written.mapZerocoinSupply.entries.map Prod.fst ⊆
      CoinDenomination.zqError.toInt :: CoinDenomination.zerocoinDenomList.map
        CoinDenomination.toInt := by
    intro key member
    obtain ⟨entry, there, rfl⟩ := List.mem_map.mp member
    obtain ⟨⟨denom, isKey⟩, _⟩ := inRange.mapZerocoinSupply entry there
    rw [isKey]
    cases denom <;> decide
  have few := (List.subperm_of_subset written.mapZerocoinSupply.nodup_keys values).length_le
  rw [List.length_map] at few
  exact few.trans (by decide)

theorem reads_writeSupplies
    (inRange : written.InRange) :
    Reads readSupplies (writeVector writeSupply written.mapZerocoinSupply.entries)
      written.mapZerocoinSupply := by
  have entries : Reads (readVector readSupply)
      (writeVector writeSupply written.mapZerocoinSupply.entries)
      written.mapZerocoinSupply.entries := by
    refine reads_writeVector (length_supply_le inRange) fun entry member => ?_
    obtain ⟨key, least, most⟩ := inRange.mapZerocoinSupply entry member
    exact reads_writeSupply key least most
  have rebuilt : written.mapZerocoinSupply.entries.foldl insertSupply SortedMap.empty =
      written.mapZerocoinSupply := by
    have same := @entries_foldl_insertSupply SortedMap.empty written.mapZerocoinSupply.entries
      written.mapZerocoinSupply.sorted
    exact SortedMap.eq_of_entries_eq same
  have steps := entries.map fun entries => entries.foldl insertSupply SortedMap.empty
  rwa [rebuilt] at steps

theorem reads_writeZerocoins
    (inRange : written.InRange)
    (sameVersion : index.nVersion = written.nVersion)
    (limited : written.hasZerocoins = true →
      written.vMintDenominationsInBlock.length ≤ maxSize) :
    Reads (readZerocoins index) written.writeZerocoins
      { index with
        nAccumulatorCheckpoint := if written.hasZerocoins then written.nAccumulatorCheckpoint
          else index.nAccumulatorCheckpoint
        mapZerocoinSupply := if written.hasZerocoins then written.mapZerocoinSupply
          else index.mapZerocoinSupply
        vMintDenominationsInBlock := if written.hasZerocoins then
          written.vMintDenominationsInBlock else index.vMintDenominationsInBlock } := by
  have checkpoint := @reads_writeIf _ (readLittleEndian 32) _ _ written.hasZerocoins
    index.nAccumulatorCheckpoint fun _ => reads_littleEndian inRange.nAccumulatorCheckpoint
  have supplies := @reads_writeIf _ readSupplies _ _ written.hasZerocoins
    index.mapZerocoinSupply fun _ => reads_writeSupplies inRange
  have mints := @reads_writeIf _ (readVector readDenomination) _ _ written.hasZerocoins
    index.vMintDenominationsInBlock fun has =>
      reads_writeVector (limited has) fun denom _ => reads_writeDenomination denom
  have same : index.hasZerocoins = written.hasZerocoins := by
    rw [LastingIndex.hasZerocoins, sameVersion, ← LastingIndex.hasZerocoins]
  rw [readZerocoins, same]
  exact checkpoint.bind _ (supplies.bind _ (mints.map _))

theorem fails_writeZerocoins
    (inRange : written.InRange)
    (sameVersion : index.nVersion = written.nVersion)
    (has : written.hasZerocoins = true)
    (beyond : maxSize < written.vMintDenominationsInBlock.length) :
    Fails (readZerocoins index) written.writeZerocoins := by
  have checkpoint := @reads_writeIf _ (readLittleEndian 32) _ _ written.hasZerocoins
    index.nAccumulatorCheckpoint fun _ => reads_littleEndian inRange.nAccumulatorCheckpoint
  have supplies := @reads_writeIf _ readSupplies _ _ written.hasZerocoins
    index.mapZerocoinSupply fun _ => reads_writeSupplies inRange
  have mints : Fails (readIf written.hasZerocoins (readVector readDenomination)
      index.vMintDenominationsInBlock) (writeIf written.hasZerocoins
        (writeVector writeDenomination written.vMintDenominationsInBlock)) := by
    rw [has]
    exact ((fails_writeCompactSize inRange.vMintDenominationsInBlock beyond).bind _).append
  have same : index.hasZerocoins = written.hasZerocoins := by
    rw [LastingIndex.hasZerocoins, sameVersion, ← LastingIndex.hasZerocoins]
  rw [readZerocoins, same]
  exact checkpoint.bind_fails _ (supplies.bind_fails _ (mints.bind _))

/-- What is read of a written entry. -/
def restored (written : CDiskBlockIndex) : CDiskBlockIndex :=
  { written with
    nHeight := varIntOfInt written.nHeight
    nFile := if written.haveData || written.haveUndo then (varIntOfInt written.nFile : Int) else 0
    nDataPos := if written.haveData then written.nDataPos else 0
    nUndoPos := if written.haveUndo then written.nUndoPos else 0
    prevoutStake := if written.isProofOfStake then written.prevoutStake else COutPoint.null
    nStakeTime := if written.isProofOfStake then written.nStakeTime else 0
    hashProofOfStake := 0
    nAccumulatorCheckpoint := if written.hasZerocoins then written.nAccumulatorCheckpoint else 0
    mapZerocoinSupply := if written.hasZerocoins then written.mapZerocoinSupply
      else LastingIndex.nullSupply
    vMintDenominationsInBlock := if written.hasZerocoins then
      written.vMintDenominationsInBlock else [] }

theorem reads_clientVersion
    (client : clientVersion < 2 ^ 31) :
    Reads readVarIntSigned (writeVarInt clientVersion) (clientVersion : Int) := by
  have version := (@reads_writeVarInt 32 clientVersion (by omega)).map (asSigned 4)
  rwa [asSigned_natCast (by omega)] at version

theorem reads_serialize
    {clientVersion : Nat}
    (client : clientVersion < 2 ^ 31)
    (inRange : written.InRange)
    (hashPrev : written.hashPrev < 2 ^ 256)
    (hashNext : written.hashNext < 2 ^ 256)
    (limited : written.hasZerocoins = true →
      written.vMintDenominationsInBlock.length ≤ maxSize) :
    Reads (unserialize null) (written.serialize clientVersion) written.restored := by
  have positions := @reads_writePositions null written inRange
  refine (reads_clientVersion client).bind _ (positions.bind _ ?_)
  refine (reads_writeStake inRange rfl).bind _ ?_
  refine (reads_writeHeader inRange hashPrev hashNext).bind _ ?_
  exact reads_writeZerocoins inRange rfl limited

/-- An entry with more mints than a vector may have is not read at all. -/
theorem fails_serialize
    {clientVersion : Nat}
    (client : clientVersion < 2 ^ 31)
    (inRange : written.InRange)
    (hashPrev : written.hashPrev < 2 ^ 256)
    (hashNext : written.hashNext < 2 ^ 256)
    (has : written.hasZerocoins = true)
    (beyond : maxSize < written.vMintDenominationsInBlock.length) :
    Fails (unserialize null) (written.serialize clientVersion) := by
  have positions := @reads_writePositions null written inRange
  refine (reads_clientVersion client).bind_fails _ (positions.bind_fails _ ?_)
  refine (reads_writeStake inRange rfl).bind_fails _ ?_
  refine (reads_writeHeader inRange hashPrev hashNext).bind_fails _ ?_
  exact fails_writeZerocoins inRange rfl has beyond

end CDiskBlockIndex

section Load

variable {hashes : HeaderHashes} {entry : IndexEntry} {clientVersion : Nat}

/-- The entry that comes back. -/
def IndexEntry.reloaded (entry : IndexEntry) : IndexEntry where
  toLastingIndex := (CDiskBlockIndex.ofEntry entry).restored.toLastingIndex
  pprev := entry.pprev
  pnext := 0

/-- The header is written whole, as far as its hash depends on it. -/
theorem getBlockHash_restored :
    (CDiskBlockIndex.ofEntry entry).restored.getBlockHash hashes = entry.getBlockHash hashes := by
  rw [CDiskBlockIndex.getBlockHash, IndexEntry.getBlockHash, HeaderHashes.getHash,
    HeaderHashes.getHash]
  by_cases old : entry.nVersion < CBlockHeader.version5
  · rw [if_pos old]
    exact if_pos old
  · have has : entry.hasZerocoins = true := by
      rw [LastingIndex.hasZerocoins, decide_eq_true_eq, CBlockHeader.version4]
      rw [CBlockHeader.version5] at old
      omega
    have checkpoint : (CDiskBlockIndex.ofEntry entry).restored.nAccumulatorCheckpoint =
        entry.nAccumulatorCheckpoint := if_pos has
    rw [if_neg old, checkpoint]
    exact if_neg old

theorem loadBlockIndexGuts_serialize
    (client : clientVersion < 2 ^ 31)
    (inRange : entry.InRange)
    (pprev : entry.pprev < 2 ^ 256)
    (limited : entry.hasZerocoins = true → entry.vMintDenominationsInBlock.length ≤ maxSize) :
    loadBlockIndexGuts hashes ((CDiskBlockIndex.ofEntry entry).serialize clientVersion) =
      if entry.getBlockHash hashes = 0 then none
      else some (entry.getBlockHash hashes, entry.reloaded) := by
  have read := @CDiskBlockIndex.reads_serialize (CDiskBlockIndex.ofEntry entry) clientVersion
    client inRange pprev (Nat.two_pow_pos 256) limited []
  rw [List.append_nil] at read
  rw [loadBlockIndexGuts, read, Option.bind_eq_bind, Option.bind_some]
  simp only [getBlockHash_restored]
  rfl

theorem loadBlockIndexGuts_eq_none
    (client : clientVersion < 2 ^ 31)
    (inRange : entry.InRange)
    (pprev : entry.pprev < 2 ^ 256)
    (has : entry.hasZerocoins = true)
    (beyond : maxSize < entry.vMintDenominationsInBlock.length) :
    loadBlockIndexGuts hashes ((CDiskBlockIndex.ofEntry entry).serialize clientVersion) =
      none := by
  have read := @CDiskBlockIndex.fails_serialize (CDiskBlockIndex.ofEntry entry) clientVersion
    client inRange pprev (Nat.two_pow_pos 256) has beyond []
  rw [List.append_nil] at read
  rw [loadBlockIndexGuts, read, Option.bind_eq_bind, Option.bind_none]

/-- The fields that are not written of this entry hold their defaults, no number is too negative
or too long for its encoding, and its block has a hash. -/
structure IndexEntry.Survives (hashes : HeaderHashes) (entry : IndexEntry) : Prop where
  hash : entry.getBlockHash hashes ≠ 0
  nHeight : 0 ≤ entry.nHeight
  nFile : if entry.haveData || entry.haveUndo then 0 ≤ entry.nFile else entry.nFile = 0
  nDataPos : entry.haveData = false → entry.nDataPos = 0
  nUndoPos : entry.haveUndo = false → entry.nUndoPos = 0
  stake : entry.isProofOfStake = false →
    entry.prevoutStake = COutPoint.null ∧ entry.nStakeTime = 0
  hashProofOfStake : entry.hashProofOfStake = 0
  zerocoins : entry.hasZerocoins = false →
    entry.nAccumulatorCheckpoint = 0 ∧ entry.mapZerocoinSupply = LastingIndex.nullSupply ∧
      entry.vMintDenominationsInBlock = []
  mints : entry.hasZerocoins = true → entry.vMintDenominationsInBlock.length ≤ maxSize

theorem varIntOfInt_eq_iff
    {n : Int} :
    (varIntOfInt n : Int) = n ↔ 0 ≤ n := by
  rw [varIntOfInt]
  split_ifs with negative
  · omega
  · omega

/-- What is written under a condition comes back where the condition holds or the default was
there. -/
theorem ite_default_eq_iff
    {α : Type} {condition : Bool} {value default : α} :
    (if condition then value else default) = value ↔ (condition = false → value = default) := by
  cases condition with
  | false => exact ⟨fun same _ => same.symm, fun same => (same rfl).symm⟩
  | true => exact iff_of_true rfl fun written => absurd written.symm Bool.false_ne_true

/-- The fields come back exactly where the conditions on them hold. -/
theorem reloaded_eq_iff :
    entry.reloaded.toLastingIndex = entry.toLastingIndex ↔
      0 ≤ entry.nHeight ∧
      (if entry.haveData || entry.haveUndo then 0 ≤ entry.nFile else entry.nFile = 0) ∧
      (entry.haveData = false → entry.nDataPos = 0) ∧
      (entry.haveUndo = false → entry.nUndoPos = 0) ∧
      (entry.isProofOfStake = false →
        entry.prevoutStake = COutPoint.null ∧ entry.nStakeTime = 0) ∧
      entry.hashProofOfStake = 0 ∧
      (entry.hasZerocoins = false →
        entry.nAccumulatorCheckpoint = 0 ∧ entry.mapZerocoinSupply = LastingIndex.nullSupply ∧
          entry.vMintDenominationsInBlock = []) := by
  have file : (if entry.haveData || entry.haveUndo then (varIntOfInt entry.nFile : Int) else 0) =
        entry.nFile ↔
      (if entry.haveData || entry.haveUndo then 0 ≤ entry.nFile else entry.nFile = 0) := by
    split_ifs with written
    · exact varIntOfInt_eq_iff
    · exact eq_comm
  constructor
  · intro same
    exact ⟨varIntOfInt_eq_iff.mp (congrArg LastingIndex.nHeight same),
      file.mp (congrArg LastingIndex.nFile same),
      ite_default_eq_iff.mp (congrArg LastingIndex.nDataPos same),
      ite_default_eq_iff.mp (congrArg LastingIndex.nUndoPos same),
      fun work => ⟨ite_default_eq_iff.mp (congrArg LastingIndex.prevoutStake same) work,
        ite_default_eq_iff.mp (congrArg LastingIndex.nStakeTime same) work⟩,
      (congrArg LastingIndex.hashProofOfStake same).symm,
      fun none =>
        ⟨ite_default_eq_iff.mp (congrArg LastingIndex.nAccumulatorCheckpoint same) none,
          ite_default_eq_iff.mp (congrArg LastingIndex.mapZerocoinSupply same) none,
          ite_default_eq_iff.mp (congrArg LastingIndex.vMintDenominationsInBlock same) none⟩⟩
  · rintro ⟨height, isFile, data, undo, stake, proof, zerocoins⟩
    ext1
    case nHeight => exact varIntOfInt_eq_iff.mpr height
    case nFile => exact file.mpr isFile
    case nDataPos => exact ite_default_eq_iff.mpr data
    case nUndoPos => exact ite_default_eq_iff.mpr undo
    case prevoutStake => exact ite_default_eq_iff.mpr fun work => (stake work).1
    case nStakeTime => exact ite_default_eq_iff.mpr fun work => (stake work).2
    case hashProofOfStake => exact proof.symm
    case nAccumulatorCheckpoint => exact ite_default_eq_iff.mpr fun none => (zerocoins none).1
    case mapZerocoinSupply => exact ite_default_eq_iff.mpr fun none => (zerocoins none).2.1
    case vMintDenominationsInBlock =>
      exact ite_default_eq_iff.mpr fun none => (zerocoins none).2.2
    all_goals rfl

end Load

/-- Hashes that are never null. -/
def oneHashes : HeaderHashes where
  hashQuark _ := 1
  hash _ := 1

/-- The entry of a staked block. -/
def stakedEntry (hashProofOfStake : Uint256) : IndexEntry :=
  { LastingIndex.null with
    nVersion := 4
    nFlags := 1
    hashProofOfStake := hashProofOfStake
    pprev := 5
    pnext := 6 }

theorem stakedEntry_inRange (hashProofOfStake : Uint256) :
    (stakedEntry hashProofOfStake).InRange := by
  constructor
  case mapZerocoinSupply =>
    intro entry member
    obtain ⟨denom, _, rfl⟩ := List.mem_map.mp member
    exact ⟨⟨denom, rfl⟩, by simp, by simp⟩
  all_goals simp [stakedEntry, LastingIndex.null, COutPoint.null]

end ColossusCoin
