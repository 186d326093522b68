import ColossusCoin.Coins.StoredCoins
import ColossusCoin.Primitives.CanonicalSizes

/-!
# The size of stored coins

`GetSerializeSize` computes the header code again, with another factor for the bytes of the mask,
so that its size is right just where both codes take as many bytes.
-/

namespace ColossusCoin

open ByteReaders SparseMask

/-- The first numbers of two, three, four and five bytes. -/
theorem getSizeOfVarInt_eq
    (fits : n < 2 ^ 32) :
    getSizeOfVarInt n =
      if n < 128 then 1 else if n < 16512 then 2 else if n < 2113664 then 3
      else if n < 270549120 then 4 else 5 := by
  rw [getSizeOfVarInt_step]
  split_ifs with one two three four
  · rfl
  · rw [getSizeOfVarInt_step, if_pos (by omega)]
  · rw [getSizeOfVarInt_step, if_neg (by omega), getSizeOfVarInt_step, if_pos (by omega)]
  · rw [getSizeOfVarInt_step, if_neg (by omega), getSizeOfVarInt_step, if_neg (by omega),
      getSizeOfVarInt_step, if_pos (by omega)]
  · rw [getSizeOfVarInt_step, if_neg (by omega), getSizeOfVarInt_step, if_neg (by omega),
      getSizeOfVarInt_step, if_neg (by omega), getSizeOfVarInt_step, if_pos (by omega)]

theorem getSizeOfVarInt_le
    (fits : n < 2 ^ 32) :
    getSizeOfVarInt n ≤ 5 := by
  rw [getSizeOfVarInt_eq fits]
  split_ifs <;> omega

namespace CCoins

variable (curve : CurvePoints)

/-- The size of the outputs that are not spent, which `CSizeComputer` takes from what is
written. -/
def outputsSize (vout : List CTxOut) : Nat :=
  (vout.map fun txout =>
    if txout.isNull then 0 else (CTxOutCompressor.serialize curve txout).length).sum

/-- `GetSerializeSize`, an `unsigned int`. -/
def getSerializeSize (coins : CCoins) : Option Nat :=
  match coins.calcMaskSize with
  | none => none
  | some (nMaskSize, nMaskCode) =>
    if coins.unspentAt 0 || coins.unspentAt 1 || nMaskCode != 0 then
      some ((getSizeOfVarInt (varIntOfInt coins.nVersion) +
        getSizeOfVarInt (coins.headerCode 8 nMaskCode) + nMaskSize +
        outputsSize curve coins.vout + getSizeOfVarInt (varIntOfInt coins.nHeight)) % 2 ^ 32)
    else none

/-- The bytes of the mask that the header code counts: those that are not zero, less one where both
first outputs are spent. -/
def countedBytes (coins : CCoins) : Nat :=
  coins.counted (maskSize coins.maskBit coins.maskCount).2

/-- The size of all parts, with the header code that is written. -/
def partsSize (coins : CCoins) : Nat :=
  getSizeOfVarInt (varIntOfInt coins.nVersion) +
    getSizeOfVarInt (coins.headerCode 16 (maskSize coins.maskBit coins.maskCount).2) +
    (maskSize coins.maskBit coins.maskCount).1 + outputsSize curve coins.vout +
    getSizeOfVarInt (varIntOfInt coins.nHeight)

/-- Counting each byte of the mask eight times reaches the first number of so many bytes just where
counting it sixteen times does. -/
def SameSide (coins : CCoins) (limit : Nat) : Prop :=
  limit ≤ 16 * coins.countedBytes →
    limit ≤ 8 * coins.countedBytes + if coins.unspentAt 1 then 8 else 0

theorem length_writeOutputs (vout : List CTxOut) :
    (writeOutputs curve vout).length = outputsSize curve vout := by
  rw [writeOutputs, List.length_flatMap, outputsSize]
  congr 1
  refine List.map_congr_left fun txout _ => ?_
  cases null : txout.isNull <;> rfl

variable {curve} {coins : CCoins}

theorem flags_eq (coins : CCoins) :
    ∃ low < 8, coins.flags = low + if coins.unspentAt 1 then 8 else 0 := by
  refine ⟨headerFlags coins.fCoinBase coins.fCoinStake (coins.unspentAt 0) false, ?_, rfl⟩
  generalize coins.fCoinBase = fCoinBase
  generalize coins.fCoinStake = fCoinStake
  generalize coins.unspentAt 0 = fFirst
  revert fCoinBase fCoinStake fFirst
  decide

theorem countedBytes_lt
    (ends : coins.vout.length ≤ 2 ^ 32 - 6) :
    coins.countedBytes < 2 ^ 29 := by
  have size : coins.maskCount = (coins.vout.length - 2 + 7) / 8 := rfl
  have counted : (maskBytes coins.maskBit coins.maskCount).countP (· != 0) ≤
      (maskBytes coins.maskBit coins.maskCount).length := List.countP_le_length
  rw [length_maskBytes] at counted
  have few : coins.countedBytes ≤ (maskSize coins.maskBit coins.maskCount).2 := Nat.sub_le _ _
  rw [maskSize_eq, countP_usedBytes] at few
  omega

/-- What is written takes the size of its parts, and the computed size is the same but for the
header code, and for the limit of its type. -/
theorem sizes_eq
    (unpruned : coins.isPruned = false)
    (ends : coins.vout.length ≤ 2 ^ 32 - 6) :
    ∃ bytes rest,
      coins.serialize curve = some bytes ∧
      bytes.length = coins.partsSize curve ∧
      coins.partsSize curve = rest +
        getSizeOfVarInt ((16 * coins.countedBytes + coins.flags) % 2 ^ 32) ∧
      coins.getSerializeSize curve = some
        ((rest + getSizeOfVarInt ((8 * coins.countedBytes + coins.flags) % 2 ^ 32)) % 2 ^ 32) := by
  have left : (coins.unspentAt 0 || coins.unspentAt 1 ||
      (maskSize coins.maskBit coins.maskCount).2 != 0) = true := by
    rw [maskSize_eq, countP_usedBytes]
    exact left_of_unpruned unpruned
  have size : coins.calcMaskSize = some (maskSize coins.maskBit coins.maskCount) :=
    if_neg (Nat.not_lt.mpr ends)
  have written : coins.serialize curve = some (writeVarInt (varIntOfInt coins.nVersion) ++
      (writeVarInt (coins.headerCode 16 (maskSize coins.maskBit coins.maskCount).2) ++
        (maskBytes coins.maskBit (maskSize coins.maskBit coins.maskCount).1 ++
          (writeOutputs curve coins.vout ++ writeVarInt (varIntOfInt coins.nHeight))))) := by
    rw [serialize, size]
    exact if_pos left
  have computed : coins.getSerializeSize curve =
      some ((getSizeOfVarInt (varIntOfInt coins.nVersion) +
        getSizeOfVarInt (coins.headerCode 8 (maskSize coins.maskBit coins.maskCount).2) +
        (maskSize coins.maskBit coins.maskCount).1 + outputsSize curve coins.vout +
        getSizeOfVarInt (varIntOfInt coins.nHeight)) % 2 ^ 32) := by
    rw [getSerializeSize, size]
    exact if_pos left
  refine ⟨_, getSizeOfVarInt (varIntOfInt coins.nVersion) +
    (maskSize coins.maskBit coins.maskCount).1 + outputsSize curve coins.vout +
    getSizeOfVarInt (varIntOfInt coins.nHeight), written, ?_, ?_, ?_⟩
  · rw [List.length_append, List.length_append, List.length_append, List.length_append,
      length_writeVarInt, length_writeVarInt, length_writeVarInt, length_maskBytes,
      length_writeOutputs, partsSize]
    omega
  · rw [partsSize, headerCode_eq, countedBytes]
    omega
  · rw [computed, headerCode_eq, countedBytes]
    congr 2
    omega

/-- Two codes take as many bytes just where they are on the same side of each limit. -/
theorem getSizeOfVarInt_eq_iff
    (firstFits : first < 2 ^ 32)
    (secondFits : second < 2 ^ 32) :
    getSizeOfVarInt first = getSizeOfVarInt second ↔
      ∀ limit ∈ [128, 16512, 2113664, 270549120], limit ≤ first ↔ limit ≤ second := by
  rw [getSizeOfVarInt_eq firstFits, getSizeOfVarInt_eq secondFits]
  simp only [List.forall_mem_cons, List.not_mem_nil, false_imp_iff, implies_true, and_true]
  split_ifs <;> omega

/-- Where the header codes wrap around, one of them takes fewer bytes. -/
def Wraps (coins : CCoins) : Prop :=
  2 ^ 28 ≤ coins.countedBytes ∧ coins.countedBytes < 2 ^ 28 + 16909320 ∨
    coins.countedBytes = 2 ^ 29 - 1 ∧ coins.unspentAt 1 = true

/-- The header codes take as many bytes just where no limit comes between them and none of them
wraps around to a small number. -/
theorem headerSizes_iff
    (ends : coins.vout.length ≤ 2 ^ 32 - 6) :
    getSizeOfVarInt ((16 * coins.countedBytes + coins.flags) % 2 ^ 32) =
        getSizeOfVarInt ((8 * coins.countedBytes + coins.flags) % 2 ^ 32) ↔
      (∀ limit ∈ [128, 16512, 2113664, 270549120], coins.SameSide limit) ∧
        ¬coins.Wraps := by
  have few := countedBytes_lt ends
  obtain ⟨low, small, flags⟩ := flags_eq coins
  rw [getSizeOfVarInt_eq_iff (Nat.mod_lt _ (by decide)) (Nat.mod_lt _ (by decide)), flags]
  simp only [List.forall_mem_cons, List.not_mem_nil, false_imp_iff, implies_true, and_true,
    SameSide, Wraps]
  generalize coins.countedBytes = counted at few ⊢
  have wrapped : ∀ {number : Nat}, 2 ^ 32 ≤ number → number < 2 ^ 33 →
      number % 2 ^ 32 = number - 2 ^ 32 := by
    intro number atLeast below
    rw [Nat.mod_eq_sub_mod atLeast, Nat.mod_eq_of_lt (by omega)]
  split_ifs with second
  · simp only [second, and_true]
    rcases Nat.lt_or_ge counted (2 ^ 28) with unwrapped | wraps
    · rw [Nat.mod_eq_of_lt (by omega), Nat.mod_eq_of_lt (by omega)]
      omega
    · rcases Nat.lt_or_ge counted (2 ^ 29 - 1) with below | last
      · rw [wrapped (by omega) (by omega), Nat.mod_eq_of_lt (by omega)]
        omega
      · rw [wrapped (by omega) (by omega), wrapped (by omega) (by omega)]
        omega
  · simp only [second, Bool.false_eq_true, and_false, or_false]
    rcases Nat.lt_or_ge counted (2 ^ 28) with unwrapped | wraps
    · rw [Nat.mod_eq_of_lt (by omega), Nat.mod_eq_of_lt (by omega)]
      omega
    · rw [wrapped (by omega) (by omega), Nat.mod_eq_of_lt (by omega)]
      omega

/-- For every unpruned coins: the computed size is that of what is written exactly if the loop over
the outputs ends, the parts together take less than 2 ** 32 bytes, and no first number of more bytes
comes between the two header codes, which do not wrap around to small numbers. -/
theorem getSerializeSize_agrees_iff
    {curve : CurvePoints}
    {coins : CCoins}
    (unpruned : coins.isPruned = false) :
    (∃ bytes, coins.serialize curve = some bytes ∧
        coins.getSerializeSize curve = some bytes.length) ↔
      coins.vout.length ≤ 2 ^ 32 - 6 ∧ coins.partsSize curve < 2 ^ 32 ∧
        (∀ limit ∈ [128, 16512, 2113664, 270549120], coins.SameSide limit) ∧
        ¬coins.Wraps := by
  by_cases ends : coins.vout.length ≤ 2 ^ 32 - 6
  · obtain ⟨bytes, rest, written, length, parts, computed⟩ := @sizes_eq curve coins unpruned ends
    have header := headerSizes_iff ends
    have secondSize := getSizeOfVarInt_le
      (Nat.mod_lt (8 * coins.countedBytes + coins.flags) (by decide : 0 < 2 ^ 32))
    rw [← header]
    constructor
    · rintro ⟨same, writtenSame, computedSame⟩
      obtain rfl := Option.some.inj (written.symm.trans writtenSame)
      have size := Option.some.inj (computed.symm.trans computedSame)
      omega
    · rintro ⟨_, fits, same⟩
      refine ⟨bytes, written, computed.trans (congrArg some ?_)⟩
      rw [length, ← same, ← parts, Nat.mod_eq_of_lt fits]
  · refine ⟨?_, fun holds => absurd holds.1 ends⟩
    rintro ⟨bytes, written, _⟩
    have none : coins.calcMaskSize = none := if_pos (Nat.not_le.mp ends)
    rw [serialize, none] at written
    cases written

/-- An unspent output and nothing else. -/
def oneOutputLeft : CCoins where
  fCoinBase := false
  fCoinStake := false
  vout := [CTxOutCompressor.coinToKeyID]
  nHeight := 7
  nVersion := 1

theorem getSerializeSize_agrees_iff_oneOutputLeft :
    (∃ bytes, oneOutputLeft.serialize CTxOutCompressor.noKeys = some bytes ∧
        oneOutputLeft.getSerializeSize CTxOutCompressor.noKeys = some bytes.length) ↔
      oneOutputLeft.vout.length ≤ 2 ^ 32 - 6 ∧
        oneOutputLeft.partsSize CTxOutCompressor.noKeys < 2 ^ 32 ∧
        (∀ limit ∈ [128, 16512, 2113664, 270549120], oneOutputLeft.SameSide limit) ∧
        ¬oneOutputLeft.Wraps :=
  getSerializeSize_agrees_iff (by decide)

/-- A transaction with 66 outputs, all of them unspent. -/
def manyOutputsLeft : CCoins where
  fCoinBase := false
  fCoinStake := false
  vout := List.replicate 66 CTxOutCompressor.coinToKeyID
  nHeight := 7
  nVersion := 1

/-- Its header code is written in two bytes and counted as one. -/
theorem manyOutputsLeft_sizes_differ :
    manyOutputsLeft.isPruned = false ∧
      ¬∃ bytes, manyOutputsLeft.serialize CTxOutCompressor.noKeys = some bytes ∧
        manyOutputsLeft.getSerializeSize CTxOutCompressor.noKeys = some bytes.length := by
  refine ⟨by decide, ?_⟩
  rintro ⟨bytes, written, size⟩
  obtain ⟨others, rest, writtenOthers, length, parts, computed⟩ :=
    @sizes_eq CTxOutCompressor.noKeys manyOutputsLeft (by decide) (by decide)
  obtain rfl := Option.some.inj (written.symm.trans writtenOthers)
  have codes : (16 * manyOutputsLeft.countedBytes + manyOutputsLeft.flags) % 2 ^ 32 = 140 ∧
      (8 * manyOutputsLeft.countedBytes + manyOutputsLeft.flags) % 2 ^ 32 = 76 := by decide
  have two : getSizeOfVarInt 140 = 2 := getSizeOfVarInt_eq (by decide)
  have one : getSizeOfVarInt 76 = 1 := getSizeOfVarInt_eq (by decide)
  have same := Option.some.inj (computed.symm.trans size)
  rw [codes.1, two] at parts
  rw [codes.2, one] at same
  omega

end CCoins

end ColossusCoin
