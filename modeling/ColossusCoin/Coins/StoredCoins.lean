import ColossusCoin.Coins.Basic
import ColossusCoin.Coins.CompressedOutputs
import ColossusCoin.Library.SparseMask

/-!
# Coins as the database stores them

`CCoins` is stored with a header code, which packs the flags, the first two outputs and the number
of bytes of a mask, followed by that mask of the other outputs and by the outputs that are not
spent.
-/

namespace ColossusCoin

open ByteReaders SparseMask

namespace CCoins

variable (curve : CurvePoints)

/-- Whether the output at an index is there and not spent. -/
def unspentAt (coins : CCoins) (index : Nat) : Bool :=
  match coins.vout[index]? with
  | none => false
  | some txout => !txout.isNull

/-- The bit of the mask for an output, which come after the first two. -/
def maskBit (coins : CCoins) (place : Nat) : Bool :=
  coins.unspentAt (2 + place)

/-- `CalcMaskSize`: the bytes of the mask, and those that are not zero.  With more outputs the
`unsigned int` of the loop wraps around and the loop does not end. -/
def calcMaskSize (coins : CCoins) : Option (Nat × Nat) :=
  if 2 ^ 32 - 6 < coins.vout.length then none
  else some (maskSize coins.maskBit ((coins.vout.length - 2 + 7) / 8))

/-- The header code, an `unsigned int`, with this factor for the bytes of the mask. -/
def headerCode (factor : Nat) (coins : CCoins) (nMaskCode : Nat) : Nat :=
  let fFirst := coins.unspentAt 0
  let fSecond := coins.unspentAt 1
  (factor * (nMaskCode - if fFirst || fSecond then 0 else 1) + (if coins.fCoinBase then 1 else 0) +
    (if coins.fCoinStake then 2 else 0) + (if fFirst then 4 else 0) +
    (if fSecond then 8 else 0)) % 2 ^ 32

/-- The outputs that are not spent, one after the other. -/
def writeOutputs (vout : List CTxOut) : List UInt8 :=
  vout.flatMap fun txout => writeIf (!txout.isNull) (CTxOutCompressor.serialize curve txout)

/-- `Serialize`, which asserts that an output is left. -/
def serialize (coins : CCoins) : Option (List UInt8) :=
  match coins.calcMaskSize with
  | none => none
  | some (nMaskSize, nMaskCode) =>
    if coins.unspentAt 0 || coins.unspentAt 1 || nMaskCode != 0 then
      some (writeVarInt (varIntOfInt coins.nVersion) ++
        (writeVarInt (coins.headerCode 16 nMaskCode) ++
          (maskBytes coins.maskBit nMaskSize ++
            (writeOutputs curve coins.vout ++ writeVarInt (varIntOfInt coins.nHeight)))))
    else none

/-- Read the outputs that are available, each into a null output. -/
def readOutputs : List Bool → Reader (List CTxOut)
  | [] => pure []
  | avail :: vAvail => do
      let txout ← readIf avail (CTxOutCompressor.unserialize curve CTxOut.null) CTxOut.null
      let vout ← readOutputs vAvail
      pure (txout :: vout)

/-- What `Unserialize` reads after the header code. -/
def unserializeCoded (nVersion : Int) (nCode : Nat) : Reader CCoins := do
  let vAvail ← readMask (nCode / 16 + if nCode &&& 12 != 0 then 0 else 1)
    [nCode &&& 4 != 0, nCode &&& 8 != 0]
  let vout ← readOutputs curve vAvail
  let nHeight ← readVarIntSigned
  pure (cleanup
    { fCoinBase := nCode &&& 1 != 0
      fCoinStake := nCode &&& 2 != 0
      vout := vout
      nHeight := nHeight
      nVersion := nVersion })

def unserialize : Reader CCoins := do
  let nVersion ← readVarIntSigned
  let nCode ← readVarInt 32
  unserializeCoded curve nVersion nCode

variable {curve} {coins : CCoins}

theorem unspentAt_eq_false_of_length_le
    (beyond : coins.vout.length ≤ index) :
    coins.unspentAt index = false := by
  rw [unspentAt, List.getElem?_eq_none beyond]

/-- The bits of all outputs, and of some places after them. -/
theorem map_unspentAt_range (more : Nat) :
    (List.range (coins.vout.length + more)).map coins.unspentAt =
      coins.vout.map (fun txout => !txout.isNull) ++ List.replicate more false := by
  rw [List.range_add, List.map_append, List.map_map]
  congr 1
  · refine List.ext_getElem (by simp) fun index inside _ => ?_
    rw [List.length_map, List.length_range] at inside
    rw [List.getElem_map, List.getElem_range, List.getElem_map, unspentAt,
      List.getElem?_eq_getElem inside]
  · rw [List.eq_replicate_iff]
    refine ⟨by rw [List.length_map, List.length_range], ?_⟩
    intro bit present
    obtain ⟨place, _, rfl⟩ := List.mem_map.mp present
    exact unspentAt_eq_false_of_length_le (Nat.le_add_right _ _)

/-- Outputs without spent ones at the end, of which one is left, end with one that is left. -/
theorem unspentAt_last
    (trimmed : coins.cleanup = coins)
    (unpruned : coins.isPruned = false) :
    0 < coins.vout.length ∧ coins.unspentAt (coins.vout.length - 1) = true := by
  have some : coins.vout ≠ [] := by
    intro none
    rw [isPruned_of_vout_eq_nil none] at unpruned
    cases unpruned
  have last : ¬(coins.vout.getLast some).isNull = true :=
    List.rdropWhile_eq_self_iff.mp (congrArg CCoins.vout trimmed) some
  refine ⟨List.length_pos_iff.mpr some, ?_⟩
  rw [unspentAt, ← List.getLast?_eq_getElem?, List.getLast?_eq_some_getLast some]
  dsimp only
  rw [Bool.eq_false_of_not_eq_true last, Bool.not_false]

/-- The number of bytes that the mask of all outputs takes. -/
def maskCount (coins : CCoins) : Nat := (coins.vout.length - 2 + 7) / 8

theorem usedBytes_eq
    (trimmed : coins.cleanup = coins)
    (unpruned : coins.isPruned = false) :
    usedBytes coins.maskBit coins.maskCount = maskBytes coins.maskBit coins.maskCount := by
  obtain ⟨some, last⟩ := unspentAt_last trimmed unpruned
  have size : coins.maskCount = (coins.vout.length - 2 + 7) / 8 := rfl
  cases count : coins.maskCount with
  | zero => rfl
  | succ bytes =>
    refine usedBytes_succ_of_some (List.any_eq_true.mpr ?_)
    refine ⟨coins.vout.length - 1 - 2 - bytes * 8, List.mem_range.mpr (by omega), ?_⟩
    have place : 2 + (bytes * 8 + (coins.vout.length - 1 - 2 - bytes * 8)) =
        coins.vout.length - 1 := by omega
    rw [maskBit, place, last]

/-- The first two bits and those of the mask are the bits of the outputs, filled up. -/
theorem available_eq (coins : CCoins) :
    [coins.unspentAt 0, coins.unspentAt 1] ++
        (maskBytes coins.maskBit coins.maskCount).flatMap unpackByte =
      coins.vout.map (fun txout => !txout.isNull) ++
        List.replicate (2 + coins.maskCount * 8 - coins.vout.length) false := by
  have size : coins.maskCount = (coins.vout.length - 2 + 7) / 8 := rfl
  have whole : coins.vout.length + (2 + coins.maskCount * 8 - coins.vout.length) =
      2 + coins.maskCount * 8 := by omega
  rw [flatMap_unpackByte_maskBytes, ← map_unspentAt_range, whole, List.range_add, List.map_append,
    List.map_map]
  rfl

/-- The flags of a header code. -/
def headerFlags (fCoinBase fCoinStake fFirst fSecond : Bool) : Nat :=
  (if fCoinBase then 1 else 0) + (if fCoinStake then 2 else 0) + (if fFirst then 4 else 0) +
    (if fSecond then 8 else 0)

theorem headerFlags_lt (fCoinBase fCoinStake fFirst fSecond : Bool) :
    headerFlags fCoinBase fCoinStake fFirst fSecond < 16 := by
  revert fCoinBase fCoinStake fFirst fSecond
  decide

theorem headerFlags_bits (fCoinBase fCoinStake fFirst fSecond : Bool) :
    (headerFlags fCoinBase fCoinStake fFirst fSecond &&& 1 != 0) = fCoinBase ∧
      (headerFlags fCoinBase fCoinStake fFirst fSecond &&& 2 != 0) = fCoinStake ∧
      (headerFlags fCoinBase fCoinStake fFirst fSecond &&& 4 != 0) = fFirst ∧
      (headerFlags fCoinBase fCoinStake fFirst fSecond &&& 8 != 0) = fSecond ∧
      (headerFlags fCoinBase fCoinStake fFirst fSecond &&& 12 != 0) = (fFirst || fSecond) := by
  revert fCoinBase fCoinStake fFirst fSecond
  decide

/-- The flags of these coins. -/
def flags (coins : CCoins) : Nat :=
  headerFlags coins.fCoinBase coins.fCoinStake (coins.unspentAt 0) (coins.unspentAt 1)

/-- The bytes of the mask that the header code counts. -/
def counted (coins : CCoins) (nMaskCode : Nat) : Nat :=
  nMaskCode - if coins.unspentAt 0 || coins.unspentAt 1 then 0 else 1

theorem headerCode_eq (factor nMaskCode : Nat) :
    coins.headerCode factor nMaskCode =
      (factor * coins.counted nMaskCode + coins.flags) % 2 ^ 32 := by
  unfold headerCode counted flags headerFlags
  dsimp only
  congr 1
  omega

theorem and_flags
    (count : Nat)
    {flags mask : Nat}
    (fourMask : mask < 16) :
    (16 * count + flags) &&& mask = flags &&& mask := by
  have small : (16 * count + flags) &&& mask < 16 := Nat.lt_of_le_of_lt Nat.and_le_right fourMask
  have low : (16 * count + flags) % 2 ^ 4 = flags % 2 ^ 4 := Nat.mul_add_mod 16 count flags
  calc (16 * count + flags) &&& mask
      = ((16 * count + flags) &&& mask) % 2 ^ 4 := (Nat.mod_eq_of_lt small).symm
    _ = (flags &&& mask) % 2 ^ 4 := by rw [Nat.and_mod_two_pow, low, ← Nat.and_mod_two_pow]
    _ = flags &&& mask := Nat.mod_eq_of_lt (Nat.lt_of_le_of_lt Nat.and_le_right fourMask)

/-- A header code that fits an `unsigned int` tells the flags, the first two outputs and the number
of bytes of the mask that are not zero. -/
theorem headerCode_parts
    {nMaskCode : Nat}
    (left : (coins.unspentAt 0 || coins.unspentAt 1 || nMaskCode != 0) = true)
    (fits : nMaskCode < 2 ^ 28) :
    coins.headerCode 16 nMaskCode < 2 ^ 32 ∧
      (coins.headerCode 16 nMaskCode &&& 1 != 0) = coins.fCoinBase ∧
      (coins.headerCode 16 nMaskCode &&& 2 != 0) = coins.fCoinStake ∧
      (coins.headerCode 16 nMaskCode &&& 4 != 0) = coins.unspentAt 0 ∧
      (coins.headerCode 16 nMaskCode &&& 8 != 0) = coins.unspentAt 1 ∧
      (coins.headerCode 16 nMaskCode / 16 +
        if coins.headerCode 16 nMaskCode &&& 12 != 0 then 0 else 1) = nMaskCode := by
  have four : coins.flags < 16 := headerFlags_lt _ _ _ _
  have few : coins.counted nMaskCode ≤ nMaskCode := Nat.sub_le _ _
  have whole : coins.headerCode 16 nMaskCode = 16 * coins.counted nMaskCode + coins.flags := by
    rw [headerCode_eq, Nat.mod_eq_of_lt (by omega)]
  obtain ⟨first, second, third, fourth, both⟩ := headerFlags_bits coins.fCoinBase
    coins.fCoinStake (coins.unspentAt 0) (coins.unspentAt 1)
  rw [whole, and_flags _ (by decide), and_flags _ (by decide),
    and_flags _ (by decide), and_flags _ (by decide), and_flags _ (by decide)]
  refine ⟨by omega, first, second, third, fourth, ?_⟩
  have divided : (16 * coins.counted nMaskCode + coins.flags) / 16 = coins.counted nMaskCode := by
    omega
  rw [divided, flags, both, counted]
  split_ifs with some
  · rfl
  · rw [Bool.eq_false_of_not_eq_true some, Bool.false_or, bne_iff_ne] at left
    omega

/-- An output as it is read back. -/
def restored (txout : CTxOut) : CTxOut :=
  if txout.isNull then CTxOut.null
  else
    { CTxOut.null with
      nValue := CTxOutCompressor.ofUInt64 (CTxOutCompressor.decompressAmount
        (CTxOutCompressor.compressAmount (CTxOutCompressor.toUInt64 txout.nValue)))
      scriptPubKey := txout.scriptPubKey }

theorem reads_writeOutputs
    {vout : List CTxOut}
    (assumed : curve.DecompressesCompressed)
    (short : ∀ txout ∈ vout, txout.isNull = false →
      txout.scriptPubKey.length + nSpecialScripts < 2 ^ 32)
    (more : Nat) :
    Reads (readOutputs curve (vout.map (fun txout => !txout.isNull) ++ List.replicate more false))
      (writeOutputs curve vout) (vout.map restored ++ List.replicate more CTxOut.null) := by
  induction vout with
  | nil =>
    rw [List.map_nil, List.map_nil, List.nil_append, List.nil_append]
    induction more with
    | zero => exact Reads.pure []
    | succ more ih =>
      rw [List.replicate_succ, List.replicate_succ]
      exact (Reads.pure CTxOut.null).bind
        (fun txout => readOutputs curve (List.replicate more false) >>= fun vout =>
          pure (txout :: vout)) (ih.map (CTxOut.null :: ·))
  | cons txout vout ih =>
    rw [List.forall_mem_cons] at short
    have here : Reads
        (readIf (!txout.isNull) (CTxOutCompressor.unserialize curve CTxOut.null) CTxOut.null)
        (writeIf (!txout.isNull) (CTxOutCompressor.serialize curve txout)) (restored txout) := by
      rw [restored]
      cases null : txout.isNull with
      | true => exact Reads.pure CTxOut.null
      | false => exact CTxOutCompressor.reads_serialize assumed (short.1 null)
    rw [writeOutputs, List.flatMap_cons]
    exact here.bind
      (fun txout => readOutputs curve (vout.map (fun txout => !txout.isNull) ++
          List.replicate more false) >>= fun vout => pure (txout :: vout))
      ((ih short.2).map (restored txout :: ·))

/-- Every spent output at the end is dropped, however many follow. -/
theorem trim_append_null (vout : List CTxOut) (more : Nat) :
    TrimmedList.trim CTxOut.isNull (vout ++ List.replicate more CTxOut.null) =
      TrimmedList.trim CTxOut.isNull vout := by
  induction more with
  | zero => rw [List.replicate_zero, List.append_nil]
  | succ more ih =>
    rw [List.replicate_succ', ← List.append_assoc, TrimmedList.trim,
      List.rdropWhile_concat_pos _ _ _ CTxOut.isNull_null]
    exact ih

theorem calcMaskSize_eq
    (trimmed : coins.cleanup = coins)
    (unpruned : coins.isPruned = false)
    (few : coins.vout.length + 6 ≤ 2 ^ 31) :
    coins.calcMaskSize = some (coins.maskCount,
      (maskBytes coins.maskBit coins.maskCount).countP (· != 0)) := by
  have used := usedBytes_eq trimmed unpruned
  rw [calcMaskSize, if_neg (by omega), ← maskCount, maskSize_eq, used, length_maskBytes]

/-- An output is left, one of the first two or one in the mask. -/
theorem left_of_unpruned (unpruned : coins.isPruned = false) :
    (coins.unspentAt 0 || coins.unspentAt 1 ||
      (maskBytes coins.maskBit coins.maskCount).countP (· != 0) != 0) = true := by
  obtain ⟨txout, present, notNull⟩ := List.all_eq_false.mp unpruned
  obtain ⟨index, inside, rfl⟩ := List.getElem_of_mem present
  have unspent : coins.unspentAt index = true := by
    rw [unspentAt, List.getElem?_eq_getElem inside]
    dsimp only
    rw [Bool.eq_false_of_not_eq_true notNull, Bool.not_false]
  rcases Nat.lt_trichotomy index 1 with first | second | later
  · rw [Nat.lt_one_iff.mp first] at unspent
    rw [unspent, Bool.true_or, Bool.true_or]
  · rw [second] at unspent
    rw [unspent, Bool.or_true, Bool.true_or]
  · have size : coins.maskCount = (coins.vout.length - 2 + 7) / 8 := rfl
    have place : 2 + ((index - 2) / 8 * 8 + (index - 2) % 8) = index := by omega
    have counted : 0 < (maskBytes coins.maskBit coins.maskCount).countP (· != 0) := by
      refine List.countP_pos_iff.mpr ⟨_, List.mem_map_of_mem (List.mem_range.mpr
        (by omega : (index - 2) / 8 < coins.maskCount)), ?_⟩
      rw [bne_iff_ne, ne_eq, packByte_eq_zero_iff, Bool.not_eq_false, List.any_eq_true]
      refine ⟨(index - 2) % 8, List.mem_range.mpr (by omega), ?_⟩
      rw [maskBit, place, unspent]
    rw [bne_iff_ne.mpr (Nat.ne_of_gt counted), Bool.or_true]

/-- Trimmed coins that are not pruned are read back, with each output as it comes back from its
compressed form. -/
theorem reads_serialize
    (assumed : curve.DecompressesCompressed)
    (trimmed : coins.cleanup = coins)
    (unpruned : coins.isPruned = false)
    (few : coins.vout.length + 6 ≤ 2 ^ 31)
    (short : ∀ txout ∈ coins.vout, txout.isNull = false →
      txout.scriptPubKey.length + nSpecialScripts < 2 ^ 32)
    (version : 0 ≤ coins.nVersion ∧ coins.nVersion < 2 ^ 31)
    (height : 0 ≤ coins.nHeight ∧ coins.nHeight < 2 ^ 31) :
    ∃ bytes, coins.serialize curve = some bytes ∧
      Reads (unserialize curve) bytes (cleanup { coins with vout := coins.vout.map restored }) := by
  have size : coins.maskCount = (coins.vout.length - 2 + 7) / 8 := rfl
  have left := left_of_unpruned unpruned
  have fits : (maskBytes coins.maskBit coins.maskCount).countP (· != 0) < 2 ^ 28 := by
    have counted : (maskBytes coins.maskBit coins.maskCount).countP (· != 0) ≤
        (maskBytes coins.maskBit coins.maskCount).length := List.countP_le_length
    rw [length_maskBytes] at counted
    omega
  obtain ⟨bounded, first, second, third, fourth, count⟩ := headerCode_parts left fits
  rw [serialize, calcMaskSize_eq trimmed unpruned few]
  dsimp only
  rw [if_pos left]
  refine ⟨_, rfl, ?_⟩
  have unsigned : varIntOfInt coins.nVersion = coins.nVersion ∧
      varIntOfInt coins.nHeight = coins.nHeight := by
    unfold varIntOfInt
    rw [if_neg (by omega), if_neg (by omega)]
    omega
  have version := reads_varIntOfInt version.2
  have height := reads_varIntOfInt height.2
  rw [unsigned.1] at version
  rw [unsigned.2] at height
  have used : ∀ some,
      ¬((maskBytes coins.maskBit coins.maskCount).getLast some == 0) = true := by
    rw [← usedBytes_eq trimmed unpruned]
    exact getLast_usedBytes _ _
  have mask := reads_readMask used [coins.unspentAt 0, coins.unspentAt 1]
  rw [available_eq] at mask
  have outputs := reads_writeOutputs assumed short (2 + coins.maskCount * 8 - coins.vout.length)
  have whole : cleanup { coins with vout := coins.vout.map restored } =
      cleanup
        { coins with
          vout := coins.vout.map restored ++
            List.replicate (2 + coins.maskCount * 8 - coins.vout.length) CTxOut.null } :=
    congrArg (fun vout => { coins with vout := vout }) (trim_append_null _ _).symm
  have coded : Reads (unserializeCoded curve coins.nVersion (coins.headerCode 16
        ((maskBytes coins.maskBit coins.maskCount).countP (· != 0))))
      (maskBytes coins.maskBit coins.maskCount ++
        (writeOutputs curve coins.vout ++ writeVarInt (varIntOfInt coins.nHeight)))
      (cleanup { coins with vout := coins.vout.map restored }) := by
    rw [whole, unserializeCoded, first, second, third, fourth, count]
    exact mask.bind _ (outputs.bind _ (height.map fun nHeight => cleanup
      { fCoinBase := coins.fCoinBase
        fCoinStake := coins.fCoinStake
        vout := coins.vout.map restored ++
          List.replicate (2 + coins.maskCount * 8 - coins.vout.length) CTxOut.null
        nHeight := nHeight
        nVersion := coins.nVersion }))
  exact version.bind _ ((reads_writeVarInt bounded).bind _ coded)

/-- What the compressed forms of the outputs must leave room for: spent outputs are plain nulls;
the others have the initial `nRounds`, which is not stored, an amount whose compressed form does not
wrap around, and a script whose size has a place; and there are not so many outputs that the header
code wraps around. -/
structure Storable (coins : CCoins) : Prop where
  few : coins.vout.length + 6 ≤ 2 ^ 31
  nulls : ∀ txout ∈ coins.vout, txout.isNull = true → txout = CTxOut.null
  rounds : ∀ txout ∈ coins.vout, txout.nRounds = -10
  amounts : ∀ txout ∈ coins.vout, txout.isNull = false →
    -2 ^ 63 ≤ txout.nValue ∧ txout.nValue < 2 ^ 63 ∧
      CTxOutCompressor.compressedAmount (CTxOutCompressor.toUInt64 txout.nValue) < 2 ^ 64
  scripts : ∀ txout ∈ coins.vout, txout.isNull = false →
    txout.scriptPubKey.length + nSpecialScripts < 2 ^ 32

theorem Storable.restored_eq
    (storable : coins.Storable)
    (present : txout ∈ coins.vout) :
    restored txout = txout := by
  rw [restored]
  split_ifs with null
  · exact (storable.nulls txout present null).symm
  · obtain ⟨least, most, fits⟩ :=
      storable.amounts txout present (Bool.eq_false_of_not_eq_true null)
    have unsigned : CTxOutCompressor.toUInt64 txout.nValue < 2 ^ 64 := by
      rw [CTxOutCompressor.toUInt64]
      omega
    have value : CTxOutCompressor.ofUInt64 (CTxOutCompressor.toUInt64 txout.nValue) =
        txout.nValue := by
      rw [CTxOutCompressor.ofUInt64, CTxOutCompressor.toUInt64]
      split_ifs <;> omega
    rw [CTxOutCompressor.compressAmount, Nat.mod_eq_of_lt fits,
      CTxOutCompressor.decompressAmount_compressedAmount unsigned, value]
    have rounds := storable.rounds txout present
    cases txout
    exact congrArg (CTxOut.mk _ _) rounds.symm

/-- Coins that can be stored are read back from what is written, whatever follows it. -/
theorem coins_round_trip
    {curve : CurvePoints}
    {coins : CCoins}
    (assumed : curve.DecompressesCompressed)
    (trimmed : coins.cleanup = coins)
    (unpruned : coins.isPruned = false)
    (version : 0 ≤ coins.nVersion ∧ coins.nVersion < 2 ^ 31)
    (height : 0 ≤ coins.nHeight ∧ coins.nHeight < 2 ^ 31)
    (storable : coins.Storable) :
    ∃ bytes, coins.serialize curve = some bytes ∧ Reads (unserialize curve) bytes coins := by
  obtain ⟨bytes, written, read⟩ := reads_serialize assumed trimmed unpruned storable.few
    storable.scripts version height
  have same : coins.vout.map restored = coins.vout :=
    (List.map_congr_left fun txout present => storable.restored_eq present).trans (List.map_id _)
  rw [same] at read
  exact ⟨bytes, written, trimmed ▸ read⟩

/-- A coinstake with the first and the fourth output left. -/
def twoOutputsLeft : CCoins where
  fCoinBase := false
  fCoinStake := true
  vout := [CTxOutCompressor.coinToKeyID, CTxOut.null, CTxOut.null, CTxOutCompressor.coinToKeyID]
  nHeight := 7
  nVersion := 1

theorem coins_round_trip_twoOutputsLeft :
    ∃ bytes, twoOutputsLeft.serialize CTxOutCompressor.noKeys = some bytes ∧
      Reads (unserialize CTxOutCompressor.noKeys) bytes twoOutputsLeft :=
  coins_round_trip CTxOutCompressor.noKeys_decompressesCompressed (by decide) (by decide)
    (by decide) (by decide)
    { few := by decide
      nulls := by decide
      rounds := by decide
      amounts := by decide
      scripts := by decide }

/-- One output with the largest amount of 64 bits. -/
def largestAmount : CCoins where
  fCoinBase := false
  fCoinStake := false
  vout := [{ nValue := 2 ^ 63 - 1, scriptPubKey := [] }]
  nHeight := 0
  nVersion := 1

/-- The compressed form of the largest amount is cut to 64 bits. -/
theorem largest_amount_lost :
    CTxOutCompressor.noKeys.DecompressesCompressed ∧ largestAmount.cleanup = largestAmount ∧
      largestAmount.isPruned = false ∧ 0 ≤ largestAmount.nVersion ∧ 0 ≤ largestAmount.nHeight ∧
      ¬∃ bytes, largestAmount.serialize CTxOutCompressor.noKeys = some bytes ∧
        Reads (unserialize CTxOutCompressor.noKeys) bytes largestAmount := by
  refine ⟨CTxOutCompressor.noKeys_decompressesCompressed, by decide, by decide, by decide,
    by decide, ?_⟩
  rintro ⟨bytes, written, read⟩
  obtain ⟨others, writtenOthers, cut⟩ := @reads_serialize CTxOutCompressor.noKeys largestAmount
    CTxOutCompressor.noKeys_decompressesCompressed (by decide) (by decide) (by decide)
    (by decide) (by decide) (by decide)
  obtain rfl := Option.some.inj (written.symm.trans writtenOthers)
  have same := (Prod.mk.inj (Option.some.inj ((read []).symm.trans (cut [])))).1
  exact absurd (congrArg CCoins.vout same) (by decide)

end CCoins

end ColossusCoin
