import ColossusCoin.Chain.BlockEncoding

/-!
# One encoding

A block or a transaction whose vectors are within `MAX_SIZE` is read back from its bytes, whatever
follows them; and the bytes that a block or a transaction is read from are the ones that are
written of it.
-/

namespace ColossusCoin

open ByteReaders

variable {hashes : HeaderHashes}

theorem exact_readOutPoint :
    Exact CDiskBlockIndex.readOutPoint CDiskBlockIndex.writeOutPoint
      (fun outpoint => outpoint.hash < 2 ^ 256 ∧ outpoint.n < 2 ^ 32) := by
  refine (exact_readLittleEndian 32).bind fun hash bounded => (exact_readLittleEndian 4).map ?_ ?_
  · intro n small
    exact ⟨bounded, small⟩
  · intro n _
    rfl

namespace CTxIn

theorem reads_serialize
    {txin : CTxIn}
    (inRange : txin.InRange)
    (limited : txin.Limited) :
    Reads unserialize txin.serialize txin := by
  have prevout := CDiskBlockIndex.reads_writeOutPoint inRange.1.1 inRange.1.2
  have script := reads_writeByteVector limited
  have sequence := @reads_littleEndian 4 txin.nSequence inRange.2
  exact prevout.bind _ (script.bind _ (sequence.map _))

theorem exact_unserialize :
    Exact unserialize serialize (fun txin => txin.InRange ∧ txin.Limited) := by
  refine exact_readOutPoint.bind fun prevout bounded => ?_
  refine exact_readByteVector.bind fun scriptSig limited => ?_
  refine (exact_readLittleEndian 4).map ?_ ?_
  · intro nSequence small
    exact ⟨⟨bounded, small⟩, limited⟩
  · intro nSequence _
    rw [serialize, List.nil_append, List.append_assoc]

end CTxIn

namespace CTxOut

theorem reads_serialize
    {txout : CTxOut}
    (inRange : txout.InRange)
    (limited : txout.Limited) :
    Reads unserialize txout.serialize txout.reloaded := by
  have value := @reads_writeSigned 8 txout.nValue (by have := inRange.1; omega)
    (by have := inRange.2; omega)
  have script := reads_writeByteVector limited
  exact value.bind _ (script.map _)

theorem exact_unserialize :
    Exact unserialize serialize (fun txout => txout.InRange ∧ txout.Limited) := by
  refine (exact_readSigned 8).bind fun nValue bounded => exact_readByteVector.map ?_ ?_
  · intro scriptPubKey limited
    have range : -2 ^ 63 ≤ nValue ∧ nValue < 2 ^ 63 := by omega
    exact ⟨range, limited⟩
  · intro scriptPubKey _
    rfl

end CTxOut

namespace CTransaction

variable {tx : CTransaction}

@[simp] theorem serialize_updateHash : (tx.updateHash hashes).serialize = tx.serialize := rfl

@[simp] theorem isCoinStake_reloaded : (tx.reloaded hashes).isCoinStake = tx.isCoinStake := by
  obtain ⟨hash, nVersion, vin, vout, nLockTime⟩ := tx
  cases vin with
  | nil => rfl
  | cons txin vin =>
    rcases vout with _ | ⟨first, _ | ⟨second, vout⟩⟩
    · rfl
    · rfl
    · rfl

theorem reads_serialize
    (inRange : tx.InRange)
    (limited : tx.Limited) :
    Reads (unserialize hashes) tx.serialize (tx.reloaded hashes) := by
  have version := @reads_writeSigned 4 tx.nVersion (by have := inRange.nVersion; omega)
    (by have := inRange.nVersion; omega)
  have inputs := reads_writeVector limited.vin.1 fun txin present =>
    CTxIn.reads_serialize (inRange.vin txin present) (limited.vin.2 txin present)
  have outputs := reads_writeVector_map CTxOut.reloaded limited.vout.1 fun txout present =>
    CTxOut.reads_serialize (inRange.vout txout present) (limited.vout.2 txout present)
  have time := @reads_littleEndian 4 tx.nLockTime inRange.nLockTime
  exact version.bind _ (inputs.bind _ (outputs.bind _ (time.map _)))

theorem exact_unserialize :
    Exact (unserialize hashes) serialize (fun tx => tx.InRange ∧ tx.Limited) := by
  refine (exact_readSigned 4).bind fun nVersion bounded => ?_
  refine (exact_readVector CTxIn.exact_unserialize).bind fun vin inputs => ?_
  refine (exact_readVector CTxOut.exact_unserialize).bind fun vout outputs => ?_
  refine (exact_readLittleEndian 4).map ?_ ?_
  · intro nLockTime small
    have range : -2 ^ 31 ≤ nVersion ∧ nVersion < 2 ^ 31 := by omega
    refine ⟨⟨range, ?_, ?_, small⟩, ⟨inputs.1, ?_⟩, ⟨outputs.1, ?_⟩⟩
    · exact fun txin present => (inputs.2 txin present).1
    · exact fun txout present => (outputs.2 txout present).1
    · exact fun txin present => (inputs.2 txin present).2
    · exact fun txout present => (outputs.2 txout present).2
  · intro nLockTime _
    rw [serialize_updateHash, serialize, List.nil_append, List.append_assoc, List.append_assoc]

end CTransaction

namespace CBlockHeader

variable {header old : CBlockHeader}

@[simp] theorem serialize_hashed : (header.hashed hashes).serialize = header.serialize := rfl

theorem serialize_eq :
    header.serialize =
      writeSigned 4 header.nVersion ++ (littleEndian 32 header.hashPrevBlock ++
        (littleEndian 32 header.hashMerkleRoot ++ (littleEndian 4 header.nTime ++
          (littleEndian 4 header.nBits ++ (littleEndian 4 header.nNonce ++
            writeIf header.hasCheckpoint (littleEndian 32 header.nAccumulatorCheckpoint)))))) := by
  simp [serialize, fixedBytes]

theorem reads_serialize
    (inRange : header.InRange)
    (absent : header.nVersion ≤ 4 → header.nAccumulatorCheckpoint = 0)
    (fresh : old.nAccumulatorCheckpoint = 0) :
    Reads (old.unserialize hashes) header.serialize (header.hashed hashes) := by
  have version := @reads_writeSigned 4 header.nVersion (by have := inRange.nVersion; omega)
    (by have := inRange.nVersion; omega)
  have previous := @reads_littleEndian 32 header.hashPrevBlock inRange.hashPrevBlock
  have root := @reads_littleEndian 32 header.hashMerkleRoot inRange.hashMerkleRoot
  have time := @reads_littleEndian 4 header.nTime inRange.nTime
  have bits := @reads_littleEndian 4 header.nBits inRange.nBits
  have nonce := @reads_littleEndian 4 header.nNonce inRange.nNonce
  have checkpoint := @reads_writeIf _ (readLittleEndian 32) _ _ header.hasCheckpoint
    old.nAccumulatorCheckpoint fun _ =>
      @reads_littleEndian 32 header.nAccumulatorCheckpoint inRange.nAccumulatorCheckpoint
  have value : (if header.hasCheckpoint then header.nAccumulatorCheckpoint
      else old.nAccumulatorCheckpoint) = header.nAccumulatorCheckpoint := by
    split_ifs with present
    · rfl
    · have early : header.nVersion ≤ 4 := Int.not_lt.mp fun above => present (decide_eq_true above)
      rw [fresh, absent early]
  rw [value] at checkpoint
  rw [serialize_eq]
  exact version.bind _ (previous.bind _ (root.bind _ (time.bind _ (bits.bind _ (nonce.bind _
    (checkpoint.map _))))))

/-- What is read into a header without a checkpoint is in range, and has a checkpoint only
where it is on the wire. -/
theorem exact_unserialize :
    Exact (old.unserialize hashes) serialize (fun header =>
      old.nAccumulatorCheckpoint = 0 →
        header.InRange ∧ (header.nVersion ≤ 4 → header.nAccumulatorCheckpoint = 0)) := by
  refine (exact_readSigned 4).bind fun nVersion version => ?_
  refine (exact_readLittleEndian 32).bind fun hashPrevBlock previous => ?_
  refine (exact_readLittleEndian 32).bind fun hashMerkleRoot root => ?_
  refine (exact_readLittleEndian 4).bind fun nTime time => ?_
  refine (exact_readLittleEndian 4).bind fun nBits bits => ?_
  refine (exact_readLittleEndian 4).bind fun nNonce nonce => ?_
  refine (exact_readIf (exact_readLittleEndian 32)).map ?_ ?_
  · intro nAccumulatorCheckpoint checkpoint fresh
    have range : -2 ^ 31 ≤ nVersion ∧ nVersion < 2 ^ 31 := by omega
    have bounded : nAccumulatorCheckpoint < 2 ^ 256 := by
      split_ifs at checkpoint with present
      · exact checkpoint
      · rw [checkpoint, fresh]
        exact Nat.two_pow_pos 256
    refine ⟨⟨range, previous, root, time, bits, nonce, bounded⟩, fun early => ?_⟩
    split_ifs at checkpoint with present
    · exact absurd (of_decide_eq_true present) (Int.not_lt.mpr early)
    · exact checkpoint.trans fresh
  · intro nAccumulatorCheckpoint _
    rw [serialize_hashed, serialize_eq]
    rfl

end CBlockHeader

namespace CBlock

variable {block old : CBlock}

theorem isProofOfStake_reloaded :
    (block.reloaded hashes).isProofOfStake = block.isProofOfStake := by
  obtain ⟨header, vtx, vchBlockSig⟩ := block
  rcases vtx with _ | ⟨first, _ | ⟨second, vtx⟩⟩
  · rfl
  · rfl
  · exact CTransaction.isCoinStake_reloaded

/-- A block is read back into one without a checkpoint and a signature. -/
theorem reads_serialize
    (inRange : block.InRange)
    (limited : block.Limited)
    (absent : block.nVersion ≤ 4 → block.nAccumulatorCheckpoint = 0)
    (unsigned : block.isProofOfStake = false → block.vchBlockSig = [])
    (fresh : old.nAccumulatorCheckpoint = 0)
    (empty : old.vchBlockSig = []) :
    Reads (old.unserialize hashes) block.serialize (block.reloaded hashes) := by
  have header := @CBlockHeader.reads_serialize hashes block.toCBlockHeader old.toCBlockHeader
    inRange.header absent fresh
  have transactions := reads_writeVector_map (CTransaction.reloaded hashes) limited.vtx.1
    fun tx present =>
      CTransaction.reads_serialize (inRange.vtx tx present) (limited.vtx.2 tx present)
  have signature := @reads_writeIf _ readByteVector _ _ block.isProofOfStake old.vchBlockSig
    fun _ => reads_writeByteVector limited.vchBlockSig
  have value : (if block.isProofOfStake then block.vchBlockSig else old.vchBlockSig) =
      block.vchBlockSig := by
    split_ifs with staked
    · rfl
    · rw [empty, unsigned (Bool.eq_false_iff.mpr staked)]
  rw [value] at signature
  refine header.bind _ (transactions.bind _ ?_)
  have same : ({ old with
      toCBlockHeader := block.toCBlockHeader.hashed hashes
      vtx := block.vtx.map (CTransaction.reloaded hashes) } : CBlock).isProofOfStake =
        block.isProofOfStake := isProofOfStake_reloaded
  dsimp only
  rw [same]
  exact signature.map _

/-- What is read into a block without a checkpoint and a signature has them only where they are
on the wire. -/
theorem exact_unserialize :
    Exact (old.unserialize hashes) serialize (fun block =>
      old.nAccumulatorCheckpoint = 0 → old.vchBlockSig = [] →
        block.InRange ∧ block.Limited ∧
          (block.nVersion ≤ 4 → block.nAccumulatorCheckpoint = 0) ∧
          (block.isProofOfStake = false → block.vchBlockSig = [])) := by
  refine CBlockHeader.exact_unserialize.bind fun header checked => ?_
  refine (exact_readVector CTransaction.exact_unserialize).bind fun vtx transactions => ?_
  refine (exact_readIf exact_readByteVector).map ?_ ?_
  · intro vchBlockSig signature fresh empty
    have transactionsInRange : ∀ tx ∈ vtx, tx.InRange :=
      fun tx present => (transactions.2 tx present).1
    have transactionsLimited : ∀ tx ∈ vtx, tx.Limited :=
      fun tx present => (transactions.2 tx present).2
    have limited : vchBlockSig.length ≤ maxSize := by
      split_ifs at signature with staked
      · exact signature
      · rw [signature, empty]
        exact Nat.zero_le maxSize
    refine ⟨⟨(checked fresh).1, transactionsInRange⟩,
      ⟨⟨transactions.1, transactionsLimited⟩, limited⟩, (checked fresh).2, fun unstaked => ?_⟩
    split_ifs at signature with staked
    · exact absurd staked (Bool.eq_false_iff.mp unstaked)
    · exact signature.trans empty
  · intro vchBlockSig _
    rw [serialize, List.nil_append, List.append_assoc]
    rfl

/-- One encoding of blocks and transactions: within `MAX_SIZE` their bytes, followed by any
others, give them back; what is decoded is written as the bytes that were consumed; and no two
strings are decoded to one. -/
theorem oneWireEncoding (hashes : HeaderHashes) :
    ((∀ tx : CTransaction, tx.InRange → tx.Limited → ∀ rest,
        (CTransaction.unserialize hashes).run (tx.serialize ++ rest) =
          some (tx.reloaded hashes, rest)) ∧
      ∀ block : CBlock, block.InRange → block.Limited →
        (block.nVersion ≤ 4 → block.nAccumulatorCheckpoint = 0) →
        (block.isProofOfStake = false → block.vchBlockSig = []) → ∀ rest,
          ((null hashes).unserialize hashes).run (block.serialize ++ rest) =
            some (block.reloaded hashes, rest)) ∧
    ((∀ bytes tx rest, (CTransaction.unserialize hashes).run bytes = some (tx, rest) →
        bytes = tx.serialize ++ rest) ∧
      ∀ (old : CBlock) bytes block rest, (old.unserialize hashes).run bytes = some (block, rest) →
        bytes = block.serialize ++ rest) ∧
    ((∀ bytes others tx, (CTransaction.unserialize hashes).run bytes = some (tx, []) →
        (CTransaction.unserialize hashes).run others = some (tx, []) → bytes = others) ∧
      ∀ (old older : CBlock) bytes others block,
        (old.unserialize hashes).run bytes = some (block, []) →
        (older.unserialize hashes).run others = some (block, []) → bytes = others) := by
  refine ⟨⟨?_, ?_⟩, ⟨?_, ?_⟩, ⟨?_, ?_⟩⟩
  · intro tx inRange limited
    exact CTransaction.reads_serialize inRange limited
  · intro block inRange limited absent unsigned
    exact reads_serialize inRange limited absent unsigned rfl rfl
  · intro bytes tx rest done
    exact CTransaction.exact_unserialize.bytes_eq done
  · intro old bytes block rest done
    exact exact_unserialize.bytes_eq done
  · intro bytes others tx done again
    exact CTransaction.exact_unserialize.injective done again
  · intro old older bytes others block done again
    exact (exact_unserialize.bytes_eq done).trans (exact_unserialize.bytes_eq again).symm

/-- A header of the newest version. -/
def newestHeader : CBlockHeader where
  hash := 0
  nVersion := CBlockHeader.currentVersion
  hashPrevBlock := 1
  hashMerkleRoot := 2
  nTime := 3
  nBits := 4
  nNonce := 5
  nAccumulatorCheckpoint := 6

/-- A coinbase and a coinstake. -/
def stakedTransactions : List CTransaction :=
  [ { hash := 0, nVersion := 1, vin := [⟨COutPoint.null, [1, 2], 0⟩]
      vout := [{ nValue := 0, scriptPubKey := [] }], nLockTime := 0 },
    { hash := 0, nVersion := 1, vin := [⟨⟨7, 0⟩, [3], 0⟩]
      vout := [{ nValue := 0, scriptPubKey := [] }, { nValue := 5, scriptPubKey := [4] }]
      nLockTime := 0 } ]

/-- A proof-of-stake block with this signature. -/
def stakedBlock (vchBlockSig : List UInt8) : CBlock where
  toCBlockHeader := newestHeader
  vtx := stakedTransactions
  vchBlockSig := vchBlockSig

theorem inRange_newestHeader : newestHeader.InRange :=
  ⟨by decide, by decide, by decide, by decide, by decide, by decide, by decide⟩

theorem inRange_stakedTransactions : ∀ tx ∈ stakedTransactions, tx.InRange := by
  refine List.forall_mem_cons.mpr ⟨?_, List.forall_mem_singleton.mpr ?_⟩
  · exact ⟨by decide, List.forall_mem_singleton.mpr ⟨by decide, by decide⟩,
      List.forall_mem_singleton.mpr ⟨by decide, by decide⟩, by decide⟩
  · exact ⟨by decide, List.forall_mem_singleton.mpr ⟨by decide, by decide⟩,
      List.forall_mem_cons.mpr ⟨⟨by decide, by decide⟩,
        List.forall_mem_singleton.mpr ⟨by decide, by decide⟩⟩, by decide⟩

theorem limited_stakedTransactions :
    stakedTransactions.length ≤ maxSize ∧ ∀ tx ∈ stakedTransactions, tx.Limited := by
  have few : ∀ count, count ≤ 2 → count ≤ maxSize := fun count small => small.trans (by decide)
  refine ⟨few 2 le_rfl, List.forall_mem_cons.mpr ⟨?_, List.forall_mem_singleton.mpr ?_⟩⟩
  · exact ⟨⟨few 1 (by omega), List.forall_mem_singleton.mpr (few 2 le_rfl)⟩,
      ⟨few 1 (by omega), List.forall_mem_singleton.mpr (few 0 (by omega))⟩⟩
  · exact ⟨⟨few 1 (by omega), List.forall_mem_singleton.mpr (few 1 (by omega))⟩,
      ⟨few 2 le_rfl, List.forall_mem_cons.mpr ⟨few 0 (by omega),
        List.forall_mem_singleton.mpr (few 1 (by omega))⟩⟩⟩

/-- A proof-of-stake block with a signature of one byte is read back. -/
theorem oneWireEncoding_staked :
    ((null ⟨fun _ => 0, fun _ => 0⟩).unserialize ⟨fun _ => 0, fun _ => 0⟩).run
        ((stakedBlock [9]).serialize ++ [8]) =
      some ((stakedBlock [9]).reloaded ⟨fun _ => 0, fun _ => 0⟩, [8]) :=
  (oneWireEncoding ⟨fun _ => 0, fun _ => 0⟩).1.2 (stakedBlock [9])
    ⟨inRange_newestHeader, inRange_stakedTransactions⟩ ⟨limited_stakedTransactions, by decide⟩
    (by decide) (by decide) [8]

/-- A signature beyond `MAX_SIZE` is written, and refused when it is read. -/
theorem fails_serialize
    {hashes : HeaderHashes} {block old : CBlock}
    (inRange : block.InRange)
    (limited : block.vtx.length ≤ maxSize ∧ ∀ tx ∈ block.vtx, tx.Limited)
    (absent : block.nVersion ≤ 4 → block.nAccumulatorCheckpoint = 0)
    (fresh : old.nAccumulatorCheckpoint = 0)
    (staked : block.isProofOfStake = true)
    (fits : block.vchBlockSig.length < 2 ^ 64)
    (beyond : maxSize < block.vchBlockSig.length) :
    Fails (old.unserialize hashes) block.serialize := by
  have header := @CBlockHeader.reads_serialize hashes block.toCBlockHeader old.toCBlockHeader
    inRange.header absent fresh
  have transactions := reads_writeVector_map (CTransaction.reloaded hashes) limited.1
    fun tx present => CTransaction.reads_serialize (inRange.vtx tx present) (limited.2 tx present)
  have signature : Fails readByteVector (writeByteVector block.vchBlockSig) :=
    ((fails_writeCompactSize fits beyond).bind readBytes).append
  refine header.bind_fails _ (transactions.bind_fails _ ?_)
  have same : ({ old with
      toCBlockHeader := block.toCBlockHeader.hashed hashes
      vtx := block.vtx.map (CTransaction.reloaded hashes) } : CBlock).isProofOfStake =
        block.isProofOfStake := isProofOfStake_reloaded
  dsimp only
  rw [same, staked]
  exact signature.bind _

/-- A block whose signature is one byte beyond `MAX_SIZE` is not read back. -/
theorem oversizedBlock_not_read :
    ¬ ∀ (hashes : HeaderHashes) (block : CBlock), block.InRange →
      (block.nVersion ≤ 4 → block.nAccumulatorCheckpoint = 0) →
      (block.isProofOfStake = false → block.vchBlockSig = []) → ∀ rest, ∃ decoded,
        ((null hashes).unserialize hashes).run (block.serialize ++ rest) =
          some (decoded, rest) := by
  intro claimed
  let oversized := stakedBlock (List.replicate (maxSize + 1) 0)
  have inRange : oversized.InRange := ⟨inRange_newestHeader, inRange_stakedTransactions⟩
  have late : ¬oversized.nVersion ≤ 4 := (by decide : ¬newestHeader.nVersion ≤ 4)
  have staked : oversized.isProofOfStake = true :=
    (by decide : (stakedBlock []).isProofOfStake = true)
  have length : oversized.vchBlockSig.length = maxSize + 1 := List.length_replicate
  have limit : maxSize = 33554432 := rfl
  obtain ⟨decoded, read⟩ := claimed ⟨fun _ => 0, fun _ => 0⟩ oversized inRange
    (fun early => absurd early late) (fun unstaked => absurd staked (by rw [unstaked]; decide)) []
  have refused := @fails_serialize ⟨fun _ => 0, fun _ => 0⟩ oversized
    (null ⟨fun _ => 0, fun _ => 0⟩) inRange limited_stakedTransactions
    (fun early => absurd early late) rfl staked (by omega) (by omega) []
  exact nomatch read.symm.trans refused

end CBlock

end ColossusCoin
