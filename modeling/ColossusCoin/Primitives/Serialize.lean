import ColossusCoin.Library.ByteReaders

/-!
# Serialization

The encodings of `serialize.h`: compact sizes, variable-length integers and vectors.  A reader
that throws has no result.
-/

namespace ColossusCoin

open ByteReaders

/-- `MAX_SIZE`: 32 MiB. -/
def maxSize : Nat := 0x02000000

def writeCompactSize (nSize : Nat) : List UInt8 :=
  if nSize < 253 then littleEndian 1 nSize
  else if nSize ≤ 0xffff then 253 :: littleEndian 2 nSize
  else if nSize ≤ 0xffffffff then 254 :: littleEndian 4 nSize
  else 255 :: littleEndian 8 nSize

/-- The number that follows the first byte, refused where a shorter form would do. -/
def readLongSize (width least : Nat) : Reader Nat := do
  let nSize ← readLittleEndian width
  if nSize < least then failure else pure nSize

/-- What `ReadCompactSize` reads after its first byte. -/
def readSizeAfter (chSize : UInt8) : Reader Nat :=
  if chSize < 253 then pure chSize.toNat
  else if chSize = 253 then readLongSize 2 253
  else if chSize = 254 then readLongSize 4 0x10000
  else readLongSize 8 0x100000000

/-- The number of `ReadCompactSize` before its last check. -/
def readAnySize : Reader Nat := do
  let chSize ← readByte
  readSizeAfter chSize

def readCompactSize : Reader Nat := do
  let nSize ← readAnySize
  if maxSize < nSize then failure else pure nSize

/-- The low seven bits, with the high bit where another digit follows. -/
def varIntDigit (n : Nat) (isLast : Bool) : UInt8 :=
  UInt8.ofNat (n % 128 + if isLast then 0 else 128)

/-- The loop of `WriteVarInt`, which finds the last digit first; `tmp` is written from its end,
so each digit stands before those found so far. -/
def writeVarIntLoop (n : Nat) (tmp : List UInt8) : List UInt8 :=
  if n ≤ 0x7f then varIntDigit n tmp.isEmpty :: tmp
  else writeVarIntLoop (n / 128 - 1) (varIntDigit n tmp.isEmpty :: tmp)
termination_by n
decreasing_by omega

/-- `WriteVarInt` of a number that is not negative. -/
def writeVarInt (n : Nat) : List UInt8 :=
  writeVarIntLoop n []

/-- The loop of `ReadVarInt` into an unsigned integer of so many bits. -/
def readVarIntLoop (width : Nat) (n : Nat) : Reader Nat
  | [] => none
  | chData :: rest =>
    let next := (n * 128 + chData.toNat % 128) % 2 ^ width
    if chData.toNat < 128 then some (next, rest)
    else readVarIntLoop width ((next + 1) % 2 ^ width) rest

def readVarInt (width : Nat) : Reader Nat :=
  readVarIntLoop width 0

/-- `Serialize` of a signed integer of so many bytes. -/
def writeSigned (size : Nat) (n : Int) : List UInt8 :=
  littleEndian size (n % 256 ^ size).toNat

/-- An unsigned integer of so many bytes as a signed one. -/
def asSigned (size : Nat) (n : Nat) : Int :=
  if 2 * n < 256 ^ size then n else n - 256 ^ size

/-- `Unserialize` of a signed integer of so many bytes. -/
def readSigned (size : Nat) : Reader Int := do
  let n ← readLittleEndian size
  pure (asSigned size n)

/-- The number that `WriteVarInt` writes of an `int`: of a negative one only the low seven
bits, since it is not above `0x7F`. -/
def varIntOfInt (n : Int) : Nat :=
  if n < 0 then (n % 128).toNat else n.toNat

/-- `ReadVarInt` into an `int`. -/
def readVarIntSigned : Reader Int := do
  let n ← readVarInt 32
  pure (asSigned 4 n)

/-- `Serialize` of a vector. -/
def writeVector {α : Type} (write : α → List UInt8) (values : List α) : List UInt8 :=
  writeCompactSize values.length ++ values.flatMap write

/-- `Unserialize` of a vector. -/
def readVector {α : Type} (read : Reader α) : Reader (List α) := do
  let nSize ← readCompactSize
  readMany read nSize

/-- `Serialize` of a vector of bytes. -/
def writeByteVector (bytes : List UInt8) : List UInt8 :=
  writeCompactSize bytes.length ++ bytes

/-- `Unserialize` of a vector of bytes. -/
def readByteVector : Reader (List UInt8) := do
  let nSize ← readCompactSize
  readBytes nSize

section Sizes

theorem reads_readAnySize
    (after : Reads (readSizeAfter first) others nSize) :
    Reads readAnySize (first :: others) nSize :=
  (reads_readByte first).bind readSizeAfter after

theorem reads_readLongSize
    (bounded : nSize < 256 ^ width)
    (canonical : least ≤ nSize) :
    Reads (readLongSize width least) (littleEndian width nSize) nSize :=
  (reads_littleEndian bounded).checked (by omega)

/-- The number itself is read back where it fits 64 bits. -/
theorem reads_writeCompactSize_any
    (fits : nSize < 2 ^ 64) :
    Reads readAnySize (writeCompactSize nSize) nSize := by
  rw [writeCompactSize]
  split_ifs with oneByte twoBytes fourBytes
  · have digit : (UInt8.ofNat nSize).toNat = nSize := by
      rw [UInt8.toNat_ofNat']
      omega
    have small : UInt8.ofNat nSize < 253 := by
      rw [UInt8.lt_iff_toNat_lt, digit]
      exact oneByte
    refine reads_readAnySize ?_
    rw [readSizeAfter, if_pos small, digit]
    exact Reads.pure nSize
  · refine reads_readAnySize ?_
    have long : Reads (readLongSize 2 253) (littleEndian 2 nSize) nSize :=
      reads_readLongSize (by omega) (by omega)
    exact long
  · refine reads_readAnySize ?_
    have long : Reads (readLongSize 4 0x10000) (littleEndian 4 nSize) nSize :=
      reads_readLongSize (by omega) (by omega)
    exact long
  · refine reads_readAnySize ?_
    have long : Reads (readLongSize 8 0x100000000) (littleEndian 8 nSize) nSize :=
      reads_readLongSize (by omega) (by omega)
    exact long

theorem reads_writeCompactSize
    (limited : nSize ≤ maxSize) :
    Reads readCompactSize (writeCompactSize nSize) nSize := by
  have bound : nSize ≤ 33554432 := limited
  exact (reads_writeCompactSize_any (by omega)).checked (Nat.not_lt.mpr limited)

theorem fails_writeCompactSize
    (fits : nSize < 2 ^ 64)
    (beyond : maxSize < nSize) :
    Fails readCompactSize (writeCompactSize nSize) :=
  (reads_writeCompactSize_any fits).refused beyond

end Sizes

section VarInts

variable {width : Nat}

theorem readVarIntLoop_cons
    {chData : UInt8} :
    readVarIntLoop width m (chData :: rest) =
      if chData.toNat < 128 then some ((m * 128 + chData.toNat % 128) % 2 ^ width, rest)
      else readVarIntLoop width (((m * 128 + chData.toNat % 128) % 2 ^ width + 1) % 2 ^ width)
        rest := rfl

/-- The low digit of a number, marked as not the last one. -/
theorem readVarIntLoop_continued
    (bounded : n + 1 < 2 ^ width)
    (whole : m * 128 + n % 128 = n) :
    readVarIntLoop width m (varIntDigit n false :: rest) = readVarIntLoop width (n + 1) rest := by
  have value : (varIntDigit n false).toNat = n % 128 + 128 := by
    rw [varIntDigit, UInt8.toNat_ofNat', if_neg Bool.false_ne_true]
    omega
  have low : (n % 128 + 128) % 128 = n % 128 := by omega
  have first : n % 2 ^ width = n := Nat.mod_eq_of_lt (Nat.lt_of_succ_lt bounded)
  rw [readVarIntLoop_cons, value, if_neg (by omega), low, whole, first, Nat.mod_eq_of_lt bounded]

theorem readVarIntLoop_last
    (bounded : n < 2 ^ width)
    (whole : m * 128 + n % 128 = n) :
    readVarIntLoop width m (varIntDigit n true :: rest) = some (n, rest) := by
  have value : (varIntDigit n true).toNat = n % 128 := by
    rw [varIntDigit, UInt8.toNat_ofNat', if_pos rfl]
    omega
  rw [readVarIntLoop_cons, value, if_pos (Nat.mod_lt n (by omega)), Nat.mod_mod, whole,
    Nat.mod_eq_of_lt bounded]

/-- The bytes before the last one leave the number that they write, and one more. -/
theorem readVarIntLoop_writeVarIntLoop
    (bounded : n + 1 < 2 ^ width)
    (following : tmp ≠ []) :
    readVarIntLoop width 0 (writeVarIntLoop n tmp ++ rest) =
      readVarIntLoop width (n + 1) (tmp ++ rest) := by
  induction n, tmp using writeVarIntLoop.induct with
  | case1 n tmp last =>
    rw [writeVarIntLoop, if_pos last, List.isEmpty_eq_false_iff.mpr following]
    exact readVarIntLoop_continued bounded (by omega)
  | case2 n tmp more ih =>
    have above : n / 128 - 1 + 1 = n / 128 := by omega
    rw [writeVarIntLoop, if_neg more, ih (by omega) (List.cons_ne_nil _ _),
      List.isEmpty_eq_false_iff.mpr following, List.cons_append, above]
    exact readVarIntLoop_continued bounded (by omega)

/-- A number that fits its type is read back. -/
theorem reads_writeVarInt
    (bounded : n < 2 ^ width) :
    Reads (readVarInt width) (writeVarInt n) n := by
  intro rest
  change readVarIntLoop width 0 (writeVarIntLoop n [] ++ rest) = some (n, rest)
  rw [writeVarIntLoop]
  by_cases last : n ≤ 0x7f
  · rw [if_pos last]
    exact readVarIntLoop_last bounded (by omega)
  · have above : n / 128 - 1 + 1 = n / 128 := by omega
    rw [if_neg last, readVarIntLoop_writeVarIntLoop (by omega) (List.cons_ne_nil _ _), above]
    exact readVarIntLoop_last bounded (by omega)

theorem asSigned_natCast
    (fits : 2 * m < 256 ^ size) :
    asSigned size m = m := if_pos fits

/-- An `int` is read back from its variable-length form where it is not negative. -/
theorem reads_varIntOfInt
    (fits : m < 2 ^ 31) :
    Reads readVarIntSigned (writeVarInt (varIntOfInt m)) (varIntOfInt m) := by
  have small : varIntOfInt m < 2 ^ 31 := by
    rw [varIntOfInt]
    split_ifs with negative
    · omega
    · omega
  have steps := (@reads_writeVarInt 32 (varIntOfInt m) (by omega)).map (asSigned 4)
  rwa [asSigned_natCast (by omega)] at steps

end VarInts

theorem reads_writeSigned
    {size : Nat} {n : Int}
    (least : -256 ^ size ≤ 2 * n)
    (most : 2 * n < 256 ^ size) :
    Reads (readSigned size) (writeSigned size n) n := by
  have cast : (256 : Int) ^ size = ((256 ^ size : Nat) : Int) := by push_cast; rfl
  rw [writeSigned, cast]
  rw [cast] at least most
  generalize isBound : 256 ^ size = bound at least most
  have remainder : n % bound = if n < 0 then n + bound else n := by
    split_ifs with negative
    · rw [← Int.add_emod_right]
      exact Int.emod_eq_of_lt (by omega) (by omega)
    · exact Int.emod_eq_of_lt (by omega) (by omega)
  have small : (n % bound).toNat < 256 ^ size := by
    rw [isBound, remainder]
    split_ifs with negative
    · omega
    · omega
  have whole : asSigned size (n % bound).toNat = n := by
    rw [asSigned, isBound, cast, isBound, remainder]
    split_ifs with negative high high
    · omega
    · omega
    · omega
    · omega
  have steps := (reads_littleEndian small).map (asSigned size)
  rwa [whole] at steps

section Vectors

variable {read : Reader α}

theorem reads_writeVector_map
    (function : α → α)
    (limited : values.length ≤ maxSize)
    (each : ∀ value ∈ values, Reads read (write value) (function value)) :
    Reads (readVector read) (writeVector write values) (values.map function) :=
  (reads_writeCompactSize limited).bind (readMany read) (reads_readMany_map function each)

theorem reads_writeVector
    (limited : values.length ≤ maxSize)
    (each : ∀ value ∈ values, Reads read (write value) value) :
    Reads (readVector read) (writeVector write values) values :=
  (reads_writeCompactSize limited).bind (readMany read) (reads_readMany each)

theorem reads_writeByteVector
    (limited : bytes.length ≤ maxSize) :
    Reads readByteVector (writeByteVector bytes) bytes :=
  (reads_writeCompactSize limited).bind readBytes (reads_readBytes bytes)

end Vectors

end ColossusCoin
