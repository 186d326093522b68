import ColossusCoin.Primitives.Serialize
import Mathlib.Data.Int.ModEq
import Mathlib.Data.List.Induction
import Mathlib.Tactic.Ring

/-!
# Canonical sizes

Each size has one form that `ReadCompactSize` takes, the one that `WriteCompactSize` writes.  So
vectors and integers of a fixed width are read from exactly the bytes that are written of them.
`ReadVarInt` takes more than `WriteVarInt` writes: all the strings of digits whose number wraps
around in its type.
-/

namespace ColossusCoin

open ByteReaders

theorem exact_readLongSize (width least : Nat) :
    Exact (readLongSize width least) (littleEndian width)
      (fun nSize => nSize < 256 ^ width ∧ least ≤ nSize) :=
  (exact_readLittleEndian width).checked.mono fun _ done => ⟨done.1, Nat.not_lt.mp done.2⟩

/-- After each first byte stands what is written after it. -/
theorem exact_readSizeAfter (chSize : UInt8) :
    ExactAfter [chSize] (readSizeAfter chSize) writeCompactSize (fun nSize => nSize < 2 ^ 64) := by
  have long : ∀ width least, (∀ nSize, nSize < 256 ^ width → least ≤ nSize →
      nSize < 2 ^ 64 ∧ writeCompactSize nSize = chSize :: littleEndian width nSize) →
      ExactAfter [chSize] (readLongSize width least) writeCompactSize
        (fun nSize => nSize < 2 ^ 64) := by
    intro width least form bytes nSize rest done
    have bounds := (exact_readLongSize width least).accepts done
    obtain ⟨fits, written⟩ := form nSize bounds.1 bounds.2
    refine ⟨fits, ?_⟩
    rw [written, (exact_readLongSize width least).bytes_eq done]
    rfl
  unfold readSizeAfter
  split_ifs with small two four
  · have below : chSize.toNat < 253 := UInt8.lt_iff_toNat_lt.mp small
    refine ExactAfter.pure (by omega) ?_
    rw [writeCompactSize, if_pos below, littleEndian, UInt8.ofNat_toNat, littleEndian]
  · refine long 2 253 fun nSize fits least => ⟨by omega, ?_⟩
    rw [writeCompactSize, if_neg (by omega), if_pos (by omega), two]
  · refine long 4 0x10000 fun nSize fits least => ⟨by omega, ?_⟩
    rw [writeCompactSize, if_neg (by omega), if_neg (by omega), if_pos (by omega), four]
  · have last : chSize = 255 := by
      rw [UInt8.lt_iff_toNat_lt] at small
      rw [← UInt8.toNat_inj] at two four ⊢
      have bound := chSize.toNat_lt
      have sizes : (253 : UInt8).toNat = 253 ∧ (254 : UInt8).toNat = 254 ∧
        (255 : UInt8).toNat = 255 := ⟨rfl, rfl, rfl⟩
      omega
    refine long 8 0x100000000 fun nSize fits least => ⟨by omega, ?_⟩
    rw [writeCompactSize, if_neg (by omega), if_neg (by omega), if_neg (by omega), last]

theorem exact_readCompactSize :
    Exact readCompactSize writeCompactSize (fun nSize => nSize ≤ maxSize) := by
  have any : Exact readAnySize writeCompactSize (fun nSize => nSize < 2 ^ 64) :=
    exact_readByte.bind fun chSize _ => exact_readSizeAfter chSize
  exact any.checked.mono fun _ done => Nat.not_lt.mp done.2

theorem exact_readVector
    {read : Reader α}
    (here : Exact read write accepted) :
    Exact (readVector read) (writeVector write)
      (fun values => values.length ≤ maxSize ∧ ∀ value ∈ values, accepted value) := by
  refine exact_readCompactSize.bind fun nSize limited => ?_
  intro bytes values rest done
  have each := (exact_readMany here nSize).accepts done
  refine ⟨⟨each.1.trans_le limited, each.2⟩, ?_⟩
  rw [writeVector, each.1, (exact_readMany here nSize).bytes_eq done, List.nil_append,
    List.append_assoc]

theorem exact_readByteVector :
    Exact readByteVector writeByteVector (fun bytes => bytes.length ≤ maxSize) := by
  refine exact_readCompactSize.bind fun nSize limited => ?_
  intro bytes values rest done
  have length := (exact_readBytes nSize).accepts done
  refine ⟨length.trans_le limited, ?_⟩
  rw [writeByteVector, length, (exact_readBytes nSize).bytes_eq done, List.nil_append,
    List.append_assoc]
  rfl

/-- The unsigned form of a signed integer is the one it was made from. -/
theorem writeSigned_asSigned
    (bounded : n < 256 ^ size) :
    writeSigned size (asSigned size n) = littleEndian size n := by
  have cast : (256 : Int) ^ size = ((256 ^ size : Nat) : Int) := by push_cast; rfl
  have unsigned : (asSigned size n % 256 ^ size).toNat = n := by
    rw [asSigned, cast]
    split_ifs with nonneg
    · rw [Int.emod_eq_of_lt (by omega) (by omega), Int.toNat_natCast]
    · rw [Int.sub_emod_right, Int.emod_eq_of_lt (by omega) (by omega), Int.toNat_natCast]
  rw [writeSigned, unsigned]

theorem exact_readSigned (size : Nat) :
    Exact (readSigned size) (writeSigned size)
      (fun n => -256 ^ size ≤ 2 * n ∧ 2 * n < 256 ^ size) := by
  refine (exact_readLittleEndian size).map ?_ ?_
  · intro n bounded
    have cast : (256 : Int) ^ size = ((256 ^ size : Nat) : Int) := by push_cast; rfl
    rw [asSigned, cast]
    split_ifs with nonneg
    · omega
    · omega
  · intro n bounded
    rw [writeSigned_asSigned bounded, List.nil_append]

def getSizeOfVarInt (n : Nat) : Nat :=
  if n ≤ 0x7f then 1 else 1 + getSizeOfVarInt (n / 128 - 1)
termination_by n
decreasing_by omega

theorem getSizeOfVarInt_step (n : Nat) :
    getSizeOfVarInt n = if n < 128 then 1 else 1 + getSizeOfVarInt (n / 128 - 1) := by
  rw [getSizeOfVarInt]
  congr 1
  exact propext Nat.lt_succ_iff.symm

theorem length_writeVarIntLoop (n : Nat) (tmp : List UInt8) :
    (writeVarIntLoop n tmp).length = tmp.length + getSizeOfVarInt n := by
  induction n, tmp using writeVarIntLoop.induct with
  | case1 n tmp last =>
    rw [writeVarIntLoop, if_pos last, getSizeOfVarInt_step, if_pos (Nat.lt_succ_of_le last)]
    rfl
  | case2 n tmp more ih =>
    rw [writeVarIntLoop, if_neg more, ih, getSizeOfVarInt_step n,
      if_neg (by omega), List.length_cons, Nat.add_assoc]

theorem length_writeVarInt (n : Nat) : (writeVarInt n).length = getSizeOfVarInt n := by
  rw [writeVarInt, length_writeVarIntLoop, List.length_nil, Nat.zero_add]

/-- The number that a string of digits encodes: seven bits of each, the highest digit first, and
one more for all digits but the last. -/
def encodedNumber : List UInt8 → Nat
  | [] => 0
  | [last] => last.toNat % 128
  | digit :: next :: rest =>
    128 ^ (rest.length + 1) * (digit.toNat % 128 + 1) + encodedNumber (next :: rest)

/-- Only the last digit of a string does not announce another one. -/
def IsVarInt : List UInt8 → Prop
  | [] => False
  | [last] => last.toNat < 128
  | digit :: next :: rest => 128 ≤ digit.toNat ∧ IsVarInt (next :: rest)

/-- The digits that are read on top of a number are those of the string, and they go round in the
type. -/
theorem readVarIntLoop_eq_some
    (done : readVarIntLoop width m bytes = some (n, [])) :
    IsVarInt bytes ∧ n = (m * 128 ^ bytes.length + encodedNumber bytes) % 2 ^ width := by
  induction bytes generalizing m with
  | nil => cases done
  | cons chData rest ih =>
    rw [readVarIntLoop_cons] at done
    split_ifs at done with last
    · obtain ⟨rfl, rfl⟩ := Prod.mk.inj (Option.some.inj done)
      refine ⟨last, ?_⟩
      rw [encodedNumber, List.length_singleton, Nat.pow_one]
    · obtain ⟨digits, number⟩ := ih done
      cases rest with
      | nil => exact digits.elim
      | cons next others =>
        have advanced : ((m * 128 + chData.toNat % 128) % 2 ^ width + 1) % 2 ^ width ≡
            m * 128 + chData.toNat % 128 + 1 [MOD 2 ^ width] :=
          (Nat.mod_modEq _ _).trans ((Nat.mod_modEq _ _).add_right 1)
        have sum := (advanced.mul_right (128 ^ (next :: others).length)).add_right
          (encodedNumber (next :: others))
        refine ⟨⟨Nat.not_lt.mp last, digits⟩, number.trans (Eq.trans sum ?_)⟩
        simp only [encodedNumber, List.length_cons]
        congr 1
        ring

theorem encodedNumber_append
    (some : digits ≠ [])
    (last : UInt8) :
    encodedNumber (digits ++ [last]) = 128 * (encodedNumber digits + 1) + last.toNat % 128 := by
  induction digits with
  | nil => exact absurd rfl some
  | cons digit rest ih =>
    cases rest with
    | nil =>
      rw [List.cons_append, List.nil_append, encodedNumber, encodedNumber, encodedNumber,
        List.length_nil, Nat.zero_add, Nat.pow_one]
    | cons next others =>
      have rest := ih (List.cons_ne_nil _ _)
      rw [List.cons_append, List.cons_append, encodedNumber, encodedNumber, ← List.cons_append,
        rest, List.length_append, List.length_singleton, Nat.pow_succ]
      ring

theorem varIntDigit_eq
    (digit : UInt8)
    (low : n % 128 = digit.toNat % 128)
    (more : 128 ≤ digit.toNat) :
    varIntDigit n false = digit := by
  have bounded := digit.toNat_lt
  refine UInt8.toNat_inj.mp ?_
  rw [varIntDigit, UInt8.toNat_ofNat', if_neg Bool.false_ne_true]
  omega

theorem writeVarIntLoop_encodedNumber
    (some : digits ≠ [])
    (continued : ∀ digit ∈ digits, 128 ≤ digit.toNat)
    (following : tmp ≠ []) :
    writeVarIntLoop (encodedNumber digits) tmp = digits ++ tmp := by
  induction digits using List.reverseRecOn generalizing tmp with
  | nil => exact absurd rfl some
  | append_singleton before last ih =>
    have more := continued last (List.mem_append_right _ (List.mem_singleton_self last))
    have notLast := List.isEmpty_eq_false_iff.mpr following
    rw [writeVarIntLoop, notLast]
    cases before with
    | nil =>
      have single : encodedNumber ([] ++ [last]) = last.toNat % 128 := rfl
      rw [single, if_pos (by omega), varIntDigit_eq last (Nat.mod_mod _ _) more]
      rfl
    | cons first rest =>
      have number := encodedNumber_append (List.cons_ne_nil first rest) last
      have high : encodedNumber (first :: rest ++ [last]) / 128 - 1 =
          encodedNumber (first :: rest) := by omega
      rw [if_neg (by omega), high, varIntDigit_eq last (by omega) more,
        ih (List.cons_ne_nil first rest)
          (fun digit member => continued digit (List.mem_append_left _ member))
          (List.cons_ne_nil _ _), List.append_assoc]
      rfl

theorem isVarInt_split
    (digits : IsVarInt bytes) :
    ∃ before last, bytes = before ++ [last] ∧ (∀ digit ∈ before, 128 ≤ digit.toNat) ∧
      last.toNat < 128 := by
  induction bytes with
  | nil => exact digits.elim
  | cons digit rest ih =>
    cases rest with
    | nil => exact ⟨[], digit, rfl, nofun, digits⟩
    | cons next others =>
      obtain ⟨before, last, split, continued, ends⟩ := ih digits.2
      exact ⟨digit :: before, last, by rw [split, List.cons_append],
        List.forall_mem_cons.mpr ⟨digits.1, continued⟩, ends⟩

theorem writeVarInt_encodedNumber
    (digits : IsVarInt bytes) :
    writeVarInt (encodedNumber bytes) = bytes := by
  obtain ⟨before, last, rfl, continued, ends⟩ := isVarInt_split digits
  have low : ∀ n, n % 128 = last.toNat % 128 → varIntDigit n true = last := by
    intro n same
    refine UInt8.toNat_inj.mp ?_
    rw [varIntDigit, UInt8.toNat_ofNat', if_pos rfl]
    omega
  rw [writeVarInt, writeVarIntLoop]
  cases before with
  | nil =>
    have single : encodedNumber ([] ++ [last]) = last.toNat % 128 := rfl
    rw [single, if_pos (by omega), List.isEmpty_nil, low _ (Nat.mod_mod _ _)]
    rfl
  | cons first rest =>
    have number := encodedNumber_append (List.cons_ne_nil first rest) last
    have high : encodedNumber (first :: rest ++ [last]) / 128 - 1 =
        encodedNumber (first :: rest) := by omega
    rw [if_neg (by omega), high, List.isEmpty_nil, low _ (by omega),
      writeVarIntLoop_encodedNumber (List.cons_ne_nil first rest) continued (List.cons_ne_nil _ _)]

theorem encodedNumber_writeVarInt (n : Nat) : encodedNumber (writeVarInt n) = n := by
  have below : n < 2 ^ (n + encodedNumber (writeVarInt n)) :=
    Nat.lt_of_le_of_lt (Nat.le_add_right _ _) Nat.lt_two_pow_self
  have encodedBelow : encodedNumber (writeVarInt n) < 2 ^ (n + encodedNumber (writeVarInt n)) :=
    Nat.lt_of_le_of_lt (Nat.le_add_left _ _) Nat.lt_two_pow_self
  have read := reads_writeVarInt below []
  rw [List.append_nil] at read
  have number := (readVarIntLoop_eq_some read).2
  rw [Nat.zero_mul, Nat.zero_add, Nat.mod_eq_of_lt encodedBelow] at number
  exact number.symm

/-- Each number of so many bits is read back from what is written of it, whatever follows, and that
has the size that `GetSizeOfVarInt` gives.  Conversely, the bytes that are read as a number are the
ones that are written of it, with that size, exactly if what they encode fits the type. -/
theorem readVarInt_exact_iff (width : Nat) :
    (∀ n, n < 2 ^ width → Reads (readVarInt width) (writeVarInt n) n ∧
      (writeVarInt n).length = getSizeOfVarInt n) ∧
    ∀ bytes n, (readVarInt width).run bytes = some (n, []) →
      ((bytes = writeVarInt n ∧ bytes.length = getSizeOfVarInt n) ↔
        encodedNumber bytes < 2 ^ width) := by
  refine ⟨fun n bounded => ⟨reads_writeVarInt bounded, length_writeVarInt n⟩, ?_⟩
  intro bytes n done
  obtain ⟨digits, number⟩ := readVarIntLoop_eq_some done
  rw [Nat.zero_mul, Nat.zero_add] at number
  constructor
  · rintro ⟨written, _⟩
    rw [written, encodedNumber_writeVarInt, number]
    exact Nat.mod_lt _ (Nat.two_pow_pos width)
  · intro fits
    rw [Nat.mod_eq_of_lt fits] at number
    have written : bytes = writeVarInt n := by rw [number, writeVarInt_encodedNumber digits]
    exact ⟨written, by rw [written, length_writeVarInt]⟩

/-- The bytes of 2 ** 32 are read as zero into 32 bits. -/
theorem readVarInt_wraps :
    ¬ ∀ bytes n, (readVarInt 32).run bytes = some (n, []) → bytes = writeVarInt n := by
  intro claimed
  have written := claimed [0x8e, 0xfe, 0xfe, 0xff, 0x00] 0 (by decide)
  have length := congrArg List.length written
  rw [length_writeVarInt, getSizeOfVarInt_step, if_pos (by decide)] at length
  exact absurd length (by decide)

end ColossusCoin
