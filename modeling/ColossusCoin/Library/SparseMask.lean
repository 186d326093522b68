import ColossusCoin.Library.ByteReaders
import ColossusCoin.Library.TrimmedList

/-!
# Sparse masks

A mask has a bit for each entry of a table, eight to a byte.  The bytes are written up to the last
one that is not zero, after the number of bytes that are not zero; a reader that counts these down
stops at the right place.
-/

namespace SparseMask

open ByteReaders

/-- The byte of eight bits, the first one lowest. -/
def packByte (bit : Nat → Bool) : UInt8 :=
  (List.range 8).foldl (fun byte place => if bit place then byte ||| 1 <<< UInt8.ofNat place
    else byte) 0

/-- The eight bits of a byte, the lowest first. -/
def unpackByte (byte : UInt8) : List Bool :=
  (List.range 8).map fun place => byte &&& 1 <<< UInt8.ofNat place != 0

/-- The bytes of a mask. -/
def maskBytes (bit : Nat → Bool) (count : Nat) : List UInt8 :=
  (List.range count).map fun index => packByte fun place => bit (index * 8 + place)

theorem unpackByte_packByte (bit : Nat → Bool) :
    unpackByte (packByte bit) = (List.range 8).map bit := by
  have bits : ∀ first second third fourth fifth sixth seventh eighth,
      unpackByte (packByte fun place =>
        [first, second, third, fourth, fifth, sixth, seventh, eighth].getD place false) =
      [first, second, third, fourth, fifth, sixth, seventh, eighth] := by
    decide
  exact bits (bit 0) (bit 1) (bit 2) (bit 3) (bit 4) (bit 5) (bit 6) (bit 7)

/-- A byte is zero just where all its bits are clear. -/
theorem packByte_eq_zero_iff (bit : Nat → Bool) :
    packByte bit = 0 ↔ (List.range 8).any bit = false := by
  have bits : ∀ first second third fourth fifth sixth seventh eighth,
      packByte (fun place =>
        [first, second, third, fourth, fifth, sixth, seventh, eighth].getD place false) = 0 ↔
      [first, second, third, fourth, fifth, sixth, seventh, eighth].any id = false := by
    decide
  exact bits (bit 0) (bit 1) (bit 2) (bit 3) (bit 4) (bit 5) (bit 6) (bit 7)

/-- The bits of all bytes are those of the mask, filled up to whole bytes. -/
theorem flatMap_unpackByte_maskBytes (bit : Nat → Bool) (count : Nat) :
    (maskBytes bit count).flatMap unpackByte = (List.range (count * 8)).map bit := by
  induction count with
  | zero => rfl
  | succ count ih =>
    have more : (count + 1) * 8 = count * 8 + 8 := Nat.succ_mul count 8
    rw [maskBytes, List.range_succ, List.map_append, List.flatMap_append, ← maskBytes,
      ih, List.map_singleton, List.flatMap_singleton, unpackByte_packByte, more,
      List.range_add, List.map_append, List.map_map]
    rfl

/-- The number of bytes up to the last one that is not zero, and the number of those. -/
def maskSize (bit : Nat → Bool) (count : Nat) : Nat × Nat :=
  (List.range count).foldl (fun size index =>
    if (List.range 8).any fun place => bit (index * 8 + place) then (index + 1, size.2 + 1)
    else size) (0, 0)

/-- The bytes that are written. -/
def usedBytes (bit : Nat → Bool) (count : Nat) : List UInt8 :=
  TrimmedList.trim (· == 0) (maskBytes bit count)

theorem length_maskBytes (bit : Nat → Bool) (count : Nat) :
    (maskBytes bit count).length = count := by
  rw [maskBytes, List.length_map, List.length_range]

theorem maskBytes_succ (bit : Nat → Bool) (count : Nat) :
    maskBytes bit (count + 1) =
      maskBytes bit count ++ [packByte fun place => bit (count * 8 + place)] := by
  rw [maskBytes, List.range_succ, List.map_append, List.map_singleton, ← maskBytes]

/-- The bytes that are dropped at the end are zero. -/
theorem countP_usedBytes (bit : Nat → Bool) (count : Nat) :
    (usedBytes bit count).countP (· != 0) = (maskBytes bit count).countP (· != 0) := by
  have split : usedBytes bit count ++ (maskBytes bit count).rtakeWhile (· == 0) =
      maskBytes bit count :=
    List.rdropWhile_append_rtakeWhile
  have none : ((maskBytes bit count).rtakeWhile (· == 0)).countP (· != 0) = 0 := by
    rw [List.countP_eq_zero]
    intro byte dropped
    have zero := List.mem_rtakeWhile_imp dropped
    rw [bne, zero]
    exact Bool.false_ne_true
  calc (usedBytes bit count).countP (· != 0)
      = (usedBytes bit count ++ (maskBytes bit count).rtakeWhile (· == 0)).countP (· != 0) := by
        rw [List.countP_append, none, Nat.add_zero]
    _ = (maskBytes bit count).countP (· != 0) := by rw [split]

theorem usedBytes_succ_of_some
    (some : ((List.range 8).any fun place => bit (count * 8 + place)) = true) :
    usedBytes bit (count + 1) = maskBytes bit (count + 1) := by
  have notZero : (packByte fun place => bit (count * 8 + place)) ≠ 0 := by
    rw [ne_eq, packByte_eq_zero_iff, some]
    exact Bool.noConfusion
  rw [usedBytes, TrimmedList.trim, maskBytes_succ]
  exact List.rdropWhile_concat_neg _ _ _ (by rwa [beq_iff_eq])

theorem usedBytes_succ_of_none
    (none : ¬((List.range 8).any fun place => bit (count * 8 + place)) = true) :
    usedBytes bit (count + 1) = usedBytes bit count := by
  have zero : (packByte fun place => bit (count * 8 + place)) = 0 :=
    (packByte_eq_zero_iff _).mpr (Bool.eq_false_of_not_eq_true none)
  rw [usedBytes, TrimmedList.trim, maskBytes_succ]
  exact List.rdropWhile_concat_pos _ _ _ (by rwa [beq_iff_eq])

theorem maskSize_eq (bit : Nat → Bool) (count : Nat) :
    maskSize bit count = ((usedBytes bit count).length, (usedBytes bit count).countP (· != 0)) := by
  induction count with
  | zero => rfl
  | succ count ih =>
    have more : List.range (count + 1) = List.range count ++ [count] := List.range_succ
    rw [maskSize, more, List.foldl_append, ← maskSize, ih, List.foldl_cons, List.foldl_nil]
    split_ifs with some
    · have notZero : (packByte fun place => bit (count * 8 + place)) ≠ 0 := by
        rw [ne_eq, packByte_eq_zero_iff, some]
        exact Bool.noConfusion
      rw [usedBytes_succ_of_some some, length_maskBytes, maskBytes_succ, List.countP_append,
        List.countP_singleton, if_pos (by rwa [bne_iff_ne]), countP_usedBytes]
    · rw [usedBytes_succ_of_none some]

/-- Read bytes until so many of them are not zero, and append their bits. -/
def readMask : Nat → List Bool → Reader (List Bool)
  | 0, bits, bytes => some (bits, bytes)
  | _ + 1, _, [] => none
  | left + 1, bits, byte :: rest =>
    readMask (if byte = 0 then left + 1 else left) (bits ++ unpackByte byte) rest

theorem readMask_zero (bits : List Bool) (bytes : List UInt8) :
    readMask 0 bits bytes = some (bits, bytes) := by
  rw [readMask]

theorem readMask_succ (left : Nat) (bits : List Bool) (byte : UInt8) (rest : List UInt8) :
    readMask (left + 1) bits (byte :: rest) =
      readMask (if byte = 0 then left + 1 else left) (bits ++ unpackByte byte) rest := by
  rw [readMask]

/-- Bytes that do not end with zero are read by the number of those that are not zero. -/
theorem reads_readMask
    (used : ∀ some : bytes ≠ [], ¬(bytes.getLast some == 0) = true)
    (bits : List Bool) :
    Reads (readMask (bytes.countP (· != 0)) bits) bytes (bits ++ bytes.flatMap unpackByte) := by
  induction bytes generalizing bits with
  | nil =>
    intro rest
    rw [List.flatMap_nil, List.append_nil]
    exact readMask_zero bits rest
  | cons byte bytes ih =>
    have later : ∀ some, ¬(bytes.getLast some == 0) = true := by
      intro some
      rw [← List.getLast_cons some]
      exact used (List.cons_ne_nil _ _)
    have next := ih later (bits ++ unpackByte byte)
    rw [List.append_assoc, ← List.flatMap_cons] at next
    intro rest
    have step : ∀ left, (if byte = 0 then left + 1 else left) = bytes.countP (· != 0) →
        (readMask (left + 1) bits).run (byte :: bytes ++ rest) =
          some (bits ++ (byte :: bytes).flatMap unpackByte, rest) := by
      intro left same
      rw [List.cons_append]
      exact (readMask_succ left bits byte (bytes ++ rest)).trans (by rw [same]; exact next rest)
    by_cases zero : byte = 0
    · have some : bytes ≠ [] := by
        rintro rfl
        exact used (List.cons_ne_nil _ _) (by rw [List.getLast_singleton, zero]; rfl)
      obtain ⟨left, count⟩ : ∃ left, bytes.countP (· != 0) = left + 1 := by
        refine Nat.exists_eq_succ_of_ne_zero (Nat.ne_of_gt (List.countP_pos_iff.mpr ?_))
        exact ⟨bytes.getLast some, List.getLast_mem some, by
          rw [bne, Bool.eq_false_of_not_eq_true (later some)]; rfl⟩
      have whole : (byte :: bytes).countP (· != 0) = left + 1 := by
        rw [List.countP_cons, count, if_neg (by rw [bne_iff_ne]; exact not_not.mpr zero)]
      rw [whole]
      exact step left (by rw [if_pos zero, count])
    · have whole : (byte :: bytes).countP (· != 0) = bytes.countP (· != 0) + 1 := by
        rw [List.countP_cons, if_pos (by rwa [bne_iff_ne])]
      rw [whole]
      exact step _ (if_neg zero)

/-- What is left of a mask does not end with zero. -/
theorem getLast_usedBytes
    (bit : Nat → Bool)
    (count : Nat)
    (some : usedBytes bit count ≠ []) :
    ¬((usedBytes bit count).getLast some == 0) = true :=
  List.rdropWhile_last_not _ _ some

end SparseMask
