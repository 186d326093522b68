import ColossusCoin.Primitives.ScriptPushes
import Mathlib.Tactic.Ring

/-!
# Numbers in scripts

`CScriptNum` writes a number as its magnitude, the lowest byte first, with the sign in the highest
bit of the last byte.  A number is read from a byte vector that is not too long and, where this is
required, has no byte that it could do without.
-/

namespace ColossusCoin
namespace CScriptNum

open CScript

/-- The loop of `set_vch`. -/
def orBytes : Nat → BitVec 64 → List UInt8 → BitVec 64
  | _, result, [] => result
  | i, result, byte :: bytes =>
    orBytes (i + 1) (result ||| BitVec.ofNat 64 byte.toNat <<< (8 * i)) bytes

/-- `set_vch`; no result where a shift is as wide as the number. -/
def setVch (vch : List UInt8) : Option Int :=
  match vch.getLast? with
  | none => some 0
  | some back =>
    if 8 < vch.length then none
    else
      let result := orBytes 0 0 vch
      if back &&& 0x80 ≠ 0 then
        some (-(result &&& ~~~(0x80#64 <<< (8 * (vch.length - 1)))).toInt)
      else some result.toInt

/-- Whether the bytes pass the check for the minimum possible number of them. -/
def isMinimal (vch : List UInt8) : Bool :=
  match vch.getLast? with
  | none => true
  | some back =>
    if back &&& 0x7f = 0 then
      match vch.dropLast.getLast? with
      | none => false
      | some second => second &&& 0x80 ≠ 0
    else true

/-- The constructor from a byte vector: the number, or the text that it throws. -/
def ofVch (vch : List UInt8) (fRequireMinimal : Bool) (nMaxNumSize : Nat) :
    Option (Except String Int) :=
  if nMaxNumSize < vch.length then some (.error "script number overflow")
  else if fRequireMinimal && !isMinimal vch then
    some (.error "non-minimally encoded script number")
  else (setVch vch).map .ok

def nDefaultMaxNumSize : Nat := 4

theorem littleEndian_append (front bytes : List UInt8) :
    littleEndian (front ++ bytes) =
      littleEndian front + 256 ^ front.length * littleEndian bytes := by
  induction front with
  | nil => rw [List.nil_append, littleEndian, List.length_nil, pow_zero, one_mul, zero_add]
  | cons byte front ih =>
    rw [List.cons_append, littleEndian, ih, littleEndian, List.length_cons]
    ring

theorem littleEndian_lt (bytes : List UInt8) : littleEndian bytes < 256 ^ bytes.length := by
  induction bytes with
  | nil => exact Nat.one_pos
  | cons byte bytes ih =>
    have small := byte.toNat_lt
    rw [littleEndian, List.length_cons, pow_succ]
    omega

/-- Bytes put together by shifts are the number that they spell. -/
theorem toNat_orBytes
    (fits : i + bytes.length ≤ 8)
    (below : result.toNat < 256 ^ i) :
    (orBytes i result bytes).toNat = result.toNat + 256 ^ i * littleEndian bytes := by
  induction bytes generalizing i result with
  | nil => rw [orBytes, littleEndian, mul_zero, add_zero]
  | cons byte bytes ih =>
    rw [List.length_cons] at fits
    have small := byte.toNat_lt
    have power : (2 : Nat) ^ (8 * i) = 256 ^ i := by
      rw [pow_mul, show (2 : Nat) ^ 8 = 256 by decide]
    have shifted : byte.toNat * 256 ^ i < 2 ^ 64 := by
      calc byte.toNat * 256 ^ i < 256 * 256 ^ i :=
            Nat.mul_lt_mul_of_pos_right small (Nat.pow_pos (by decide))
        _ = 256 ^ (i + 1) := by rw [pow_succ, mul_comm]
        _ ≤ 256 ^ 8 := Nat.pow_le_pow_right (by decide) (by omega)
    have joined : (result ||| BitVec.ofNat 64 byte.toNat <<< (8 * i)).toNat =
        result.toNat + 256 ^ i * byte.toNat := by
      rw [BitVec.toNat_or, BitVec.toNat_shiftLeft, BitVec.toNat_ofNat, Nat.shiftLeft_eq, power,
        Nat.mod_eq_of_lt (by omega : byte.toNat < 2 ^ 64), Nat.mod_eq_of_lt shifted, mul_comm,
        ← power, Nat.or_comm, ← Nat.two_pow_add_eq_or_of_lt (by rwa [power]), add_comm]
    have bounded : (result ||| BitVec.ofNat 64 byte.toNat <<< (8 * i)).toNat < 256 ^ (i + 1) := by
      rw [joined, pow_succ]
      have least : 256 ^ i * (byte.toNat + 1) ≤ 256 ^ i * 256 := Nat.mul_le_mul_left _ small
      rw [mul_add, mul_one] at least
      omega
    rw [orBytes, ih (by omega) bounded, joined, littleEndian]
    ring

theorem forall_byte
    {holds : UInt8 → Bool}
    (all : ∀ bits : BitVec 8, holds (UInt8.ofBitVec bits) = true)
    (byte : UInt8) :
    holds byte = true :=
  all byte.toBitVec

theorem and_0x80_eq_zero_iff (byte : UInt8) : byte &&& 0x80 = 0 ↔ byte.toNat < 128 :=
  of_decide_eq_true (@forall_byte (fun byte => byte &&& 0x80 = 0 ↔ byte.toNat < 128)
    (by decide +kernel) byte)

theorem and_0x7f_eq_zero_iff (byte : UInt8) : byte &&& 0x7f = 0 ↔ byte.toNat % 128 = 0 :=
  of_decide_eq_true (@forall_byte (fun byte => byte &&& 0x7f = 0 ↔ byte.toNat % 128 = 0)
    (by decide +kernel) byte)

theorem toNat_or_0x80 (byte : UInt8) (low : byte.toNat < 128) :
    (byte ||| 0x80).toNat = byte.toNat + 128 :=
  of_decide_eq_true (@forall_byte
    (fun byte => byte.toNat < 128 → (byte ||| 0x80).toNat = byte.toNat + 128)
    (by decide +kernel) byte) low

/-- The magnitude that bytes spell: all but the highest bit of the last one. -/
def magnitude (front : List UInt8) (back : UInt8) : Nat :=
  littleEndian front + 256 ^ front.length * (back.toNat % 128)

/-- The number that bytes spell. -/
def signMagnitude (front : List UInt8) (back : UInt8) : Int :=
  if back.toNat < 128 then magnitude front back else -magnitude front back

variable {front : List UInt8} {back : UInt8}

theorem natAbs_signMagnitude : (signMagnitude front back).natAbs = magnitude front back := by
  rw [signMagnitude]
  split_ifs
  · exact Int.natAbs_natCast _
  · rw [Int.natAbs_neg, Int.natAbs_natCast]

theorem signMagnitude_neg_iff
    (positive : 0 < magnitude front back) :
    signMagnitude front back < 0 ↔ ¬back.toNat < 128 := by
  rw [signMagnitude]
  split_ifs with low
  · exact iff_of_false (by omega) (not_not.mpr low)
  · exact iff_of_true (by omega) low

theorem magnitude_lt : magnitude front back < 2 ^ (8 * front.length + 7) := by
  have below := littleEndian_lt front
  have digit : back.toNat % 128 + 1 ≤ 128 := Nat.mod_lt _ (by decide)
  have top := Nat.mul_le_mul_left (256 ^ front.length) digit
  rw [magnitude, pow_add, pow_mul, show (2 : Nat) ^ 8 = 256 by decide]
  rw [mul_add, mul_one] at top
  omega

theorem toNat_orBytes_concat
    (short : front.length < 8) :
    (orBytes 0 0 (front ++ [back])).toNat =
      littleEndian front + 256 ^ front.length * back.toNat := by
  have fits : 0 + (front ++ [back]).length ≤ 8 := by
    rw [List.length_append, List.length_singleton]
    omega
  have below : (0 : BitVec 64).toNat < 256 ^ 0 := by decide
  rw [toNat_orBytes fits below, littleEndian_append, littleEndian, littleEndian]
  simp

theorem toNat_and_not_twoPow
    (inside : place < 64)
    (small : below < 2 ^ place)
    (sum : result.toNat = below + 2 ^ place) :
    (result &&& ~~~BitVec.twoPow 64 place).toNat = below := by
  have fits : below < 2 ^ 64 := small.trans (Nat.pow_lt_pow_right (by decide) inside)
  have parts : result = BitVec.ofNat 64 below ||| BitVec.twoPow 64 place := by
    refine BitVec.eq_of_toNat_eq ?_
    rw [BitVec.toNat_or, BitVec.toNat_ofNat, BitVec.toNat_twoPow, Nat.mod_eq_of_lt fits,
      Nat.mod_eq_of_lt (Nat.pow_lt_pow_right (by decide) inside), sum, add_comm, Nat.or_comm]
    have := Nat.two_pow_add_eq_or_of_lt small 1
    rwa [mul_one] at this
  have clear : (BitVec.ofNat 64 below).getLsbD place = false := by
    rw [BitVec.getLsbD_ofNat, Nat.testBit_lt_two_pow small, Bool.and_false]
  have left : result &&& ~~~BitVec.twoPow 64 place = BitVec.ofNat 64 below := by
    refine BitVec.eq_of_getLsbD_eq fun i bound => ?_
    rw [parts, BitVec.getLsbD_and, BitVec.getLsbD_or, BitVec.getLsbD_not, BitVec.getLsbD_twoPow]
    by_cases same : place = i
    · subst same
      simp [clear]
    · simp [bound, same]
  rw [left, BitVec.toNat_ofNat, Nat.mod_eq_of_lt fits]

/-- At most eight bytes are read as the number that they spell. -/
theorem setVch_concat
    (short : front.length < 8) :
    setVch (front ++ [back]) = some (signMagnitude front back) := by
  have notLong : ¬8 < (front ++ [back]).length := by
    rw [List.length_append, List.length_singleton]
    omega
  have place : 8 * front.length + 7 < 64 := by omega
  have within : magnitude front back < 2 ^ 63 :=
    magnitude_lt.trans_le (Nat.pow_le_pow_right (by decide) (by omega))
  have bytes := @toNat_orBytes_concat front back short
  have number : ∀ bits : BitVec 64, bits.toNat = magnitude front back →
      bits.toInt = magnitude front back := by
    intro bits equal
    rw [BitVec.toInt_eq_toNat_of_lt (by omega), equal]
  rw [setVch, List.getLast?_concat]
  simp only [if_neg notLong]
  by_cases low : back.toNat < 128
  · have plain : ¬back &&& 0x80 ≠ 0 := not_not.mpr ((and_0x80_eq_zero_iff back).mpr low)
    rw [if_neg plain, signMagnitude, if_pos low, number]
    rw [bytes, magnitude, Nat.mod_eq_of_lt low]
  · have signed : back &&& 0x80 ≠ 0 := fun zero => low ((and_0x80_eq_zero_iff back).mp zero)
    have top : (0x80#64 <<< (8 * ((front ++ [back]).length - 1))) =
        BitVec.twoPow 64 (8 * front.length + 7) := by
      rw [List.length_append, List.length_singleton, Nat.add_sub_cancel, BitVec.twoPow_eq,
        Nat.add_comm, BitVec.shiftLeft_add]
      rfl
    have split : back.toNat = back.toNat % 128 + 128 := by
      have small := back.toNat_lt
      omega
    rw [if_pos signed, top, signMagnitude, if_neg low, number]
    refine toNat_and_not_twoPow place magnitude_lt ?_
    rw [bytes, magnitude, pow_add, pow_mul, show (2 : Nat) ^ 8 = 256 by decide]
    nth_rewrite 1 [split]
    ring

/-! ## Writing -/

theorem littleEndian_magnitudeBytes
    (fits : number < 256 ^ fuel) :
    littleEndian (magnitudeBytes fuel number) = number := by
  induction fuel generalizing number with
  | zero =>
    rw [pow_zero] at fits
    rw [magnitudeBytes, littleEndian]
    omega
  | succ fuel ih =>
    rw [magnitudeBytes]
    split_ifs with zero
    · rw [littleEndian, zero]
    · rw [littleEndian, ih (by rw [pow_succ] at fits; omega), UInt8.toNat_ofNat', Nat.mod_mod]
      omega

theorem getLast?_magnitudeBytes
    (fits : number < 256 ^ fuel)
    (found : (magnitudeBytes fuel number).getLast? = some last) :
    last ≠ 0 := by
  induction fuel generalizing number with
  | zero => cases found
  | succ fuel ih =>
    rw [magnitudeBytes] at found
    split_ifs at found with zero
    · cases found
    · have rest : number / 256 < 256 ^ fuel := by
        omega
      cases tail : magnitudeBytes fuel (number / 256) with
      | cons byte bytes =>
        rw [tail, List.getLast?_cons_cons, ← tail] at found
        exact ih rest found
      | nil =>
        have none_left := littleEndian_magnitudeBytes rest
        rw [tail, littleEndian] at none_left
        rw [tail, List.getLast?_singleton, Option.some.injEq] at found
        rintro rfl
        have value := congrArg UInt8.toNat found
        rw [UInt8.toNat_ofNat', UInt8.toNat_zero] at value
        omega

theorem magnitudeBytes_littleEndian
    (fits : bytes.length ≤ fuel)
    (canonical : ∀ last, bytes.getLast? = some last → last ≠ 0) :
    magnitudeBytes fuel (littleEndian bytes) = bytes := by
  induction bytes generalizing fuel with
  | nil => cases fuel <;> rfl
  | cons byte bytes ih =>
    obtain ⟨fuel, rfl⟩ := Nat.exists_eq_add_one_of_ne_zero (Nat.ne_of_gt
      (Nat.lt_of_lt_of_le (Nat.succ_pos bytes.length) fits))
    have small := byte.toNat_lt
    have first : (byte.toNat + 256 * littleEndian bytes) % 256 = byte.toNat := by omega
    have others : (byte.toNat + 256 * littleEndian bytes) / 256 = littleEndian bytes := by omega
    have rest : magnitudeBytes fuel (littleEndian bytes) = bytes := by
      refine ih (Nat.le_of_succ_le_succ fits) fun last found => ?_
      refine canonical last ?_
      cases bytes with
      | nil => cases found
      | cons _ _ => rwa [List.getLast?_cons_cons]
    have positive : littleEndian (byte :: bytes) ≠ 0 := by
      intro zero
      rw [littleEndian] at zero
      have noRest : bytes = [] := by
        rw [← rest, show littleEndian bytes = 0 by omega]
        cases fuel <;> rfl
      subst noRest
      refine canonical byte rfl (UInt8.toNat_inj.mp ?_)
      rw [UInt8.toNat_zero]
      omega
    rw [magnitudeBytes, if_neg positive, littleEndian, first, others, rest, UInt8.ofNat_toNat]

/-- The check of the last two bytes. -/
theorem isMinimal_concat_iff :
    isMinimal (front ++ [back]) = true ↔
      back.toNat % 128 ≠ 0 ∨ ∃ second, front.getLast? = some second ∧ 128 ≤ second.toNat := by
  rw [isMinimal, List.getLast?_concat, List.dropLast_concat]
  by_cases empty : back &&& 0x7f = 0
  · simp only [if_pos empty, (and_0x7f_eq_zero_iff back).mp empty, ne_eq, not_true, false_or]
    cases front.getLast? with
    | none => simp
    | some second =>
      simp only [decide_eq_true_eq, Option.some.injEq, exists_eq_left', and_0x80_eq_zero_iff]
      exact not_lt
  · simp only [if_neg empty, true_iff]
    exact .inl fun zero => empty ((and_0x7f_eq_zero_iff back).mpr zero)

theorem serializeNumber_of_magnitude
    (short : front.length < 8)
    (nonzero : last ≠ 0)
    (bytes : value.natAbs = littleEndian (front ++ [last])) :
    serializeNumber value =
      if 128 ≤ last.toNat then front ++ [last] ++ [if value < 0 then 0x80 else 0]
      else if value < 0 then front ++ [last ||| 0x80]
      else front ++ [last] := by
  have fits : (front ++ [last]).length ≤ 8 := by
    rw [List.length_append, List.length_singleton]
    omega
  have canonical : ∀ byte, (front ++ [last]).getLast? = some byte → byte ≠ 0 := by
    intro byte found
    rw [List.getLast?_concat, Option.some.injEq] at found
    exact found ▸ nonzero
  have written : magnitudeBytes 8 value.natAbs = front ++ [last] := by
    rw [bytes, magnitudeBytes_littleEndian fits canonical]
  have high : 0x80 ≤ last ↔ 128 ≤ last.toNat := UInt8.le_iff_toNat_le
  rw [serializeNumber, written, List.getLast?_concat, List.dropLast_concat]
  simp only [high]

/-- Bytes that pass the check are those of the number that they spell. -/
theorem serializeNumber_signMagnitude
    (short : front.length < 8)
    (minimal : isMinimal (front ++ [back]) = true) :
    serializeNumber (signMagnitude front back) = front ++ [back] := by
  have small := back.toNat_lt
  by_cases empty : back.toNat % 128 = 0
  · -- The last byte is the sign alone, behind a byte whose highest bit is set.
    obtain ⟨second, found, high⟩ :=
      (isMinimal_concat_iff.mp minimal).resolve_left (not_not.mpr empty)
    obtain ⟨init, rfl⟩ := List.getLast?_eq_some_iff.mp found
    have whole : magnitude (init ++ [second]) back = littleEndian (init ++ [second]) := by
      rw [magnitude, empty, mul_zero, add_zero]
    have positive : 0 < magnitude (init ++ [second]) back := by
      rw [whole, littleEndian_append, littleEndian]
      have := Nat.mul_pos (Nat.pow_pos (by decide : 0 < 256) : 0 < 256 ^ init.length)
        (by omega : 0 < second.toNat + 256 * littleEndian [])
      omega
    rw [List.length_append, List.length_singleton] at short
    rw [serializeNumber_of_magnitude (by omega) _ (natAbs_signMagnitude.trans whole), if_pos high,
      List.append_cancel_left_eq, List.cons.injEq]
    · refine ⟨?_, rfl⟩
      split_ifs with negative
      · have signed := (signMagnitude_neg_iff positive).mp negative
        exact UInt8.toNat_inj.mp (show 128 = back.toNat by omega)
      · have unsigned := not_not.mp (mt (signMagnitude_neg_iff positive).mpr negative)
        exact UInt8.toNat_inj.mp (show 0 = back.toNat by omega)
    · rintro rfl
      exact absurd high (by decide)
  · -- The last byte has a part of the magnitude.
    have digit : (UInt8.ofNat (back.toNat % 128)).toNat = back.toNat % 128 := by
      rw [UInt8.toNat_ofNat']
      omega
    have whole : magnitude front back =
        littleEndian (front ++ [UInt8.ofNat (back.toNat % 128)]) := by
      rw [littleEndian_append, littleEndian, littleEndian, digit, mul_zero, add_zero, magnitude]
    have positive : 0 < magnitude front back := by
      have := Nat.mul_pos (Nat.pow_pos (by decide : 0 < 256) : 0 < 256 ^ front.length)
        (Nat.pos_of_ne_zero empty)
      rw [magnitude]
      omega
    have low : (UInt8.ofNat (back.toNat % 128)).toNat < 128 := by
      rw [digit]
      exact Nat.mod_lt _ (by decide)
    rw [serializeNumber_of_magnitude short _ (natAbs_signMagnitude.trans whole),
      if_neg (not_le.mpr low)]
    · split_ifs with negative
      · have signed := (signMagnitude_neg_iff positive).mp negative
        rw [List.append_cancel_left_eq, List.cons.injEq]
        refine ⟨UInt8.toNat_inj.mp ?_, rfl⟩
        rw [toNat_or_0x80 _ low, digit]
        omega
      · have unsigned := not_not.mp (mt (signMagnitude_neg_iff positive).mpr negative)
        rw [Nat.mod_eq_of_lt unsigned, UInt8.ofNat_toNat]
    · intro zero
      rw [zero, UInt8.toNat_zero] at digit
      exact empty digit.symm

/-- A number other than zero is spelled by bytes that pass the check. -/
theorem exists_signMagnitude
    (nonzero : value ≠ 0)
    (fits : value.natAbs < 2 ^ 63) :
    ∃ front back, front.length < 8 ∧ isMinimal (front ++ [back]) = true ∧
      signMagnitude front back = value := by
  have within : value.natAbs < 256 ^ 8 := fits.trans (by decide)
  have number := littleEndian_magnitudeBytes within
  have length := Item.length_magnitudeBytes_le 8 value.natAbs
  cases written : (magnitudeBytes 8 value.natAbs).getLast? with
  | none =>
    rw [List.getLast?_eq_none_iff.mp written, littleEndian] at number
    omega
  | some last =>
    have lastNonzero := getLast?_magnitudeBytes within written
    obtain ⟨init, bytes⟩ := List.getLast?_eq_some_iff.mp written
    have positive : 0 < last.toNat :=
      Nat.pos_of_ne_zero fun zero => lastNonzero (UInt8.toNat_inj.mp zero)
    rw [bytes, List.length_append, List.length_singleton] at length
    rw [bytes] at number
    by_cases high : 128 ≤ last.toNat
    · -- One more byte has the sign.
      have shorter : (init ++ [last]).length < 8 := by
        rw [List.length_append, List.length_singleton]
        by_contra long
        have full : init.length = 7 := by omega
        rw [littleEndian_append, littleEndian, littleEndian, full] at number
        omega
      have isSecond : (init ++ [last]).getLast? = some last := List.getLast?_concat
      by_cases negative : value < 0
      · refine ⟨init ++ [last], 0x80, shorter,
          isMinimal_concat_iff.mpr (.inr ⟨last, isSecond, high⟩), ?_⟩
        have digit : (0x80 : UInt8).toNat % 128 = 0 := by decide
        rw [signMagnitude, if_neg (by decide), magnitude, number, digit, mul_zero, add_zero]
        omega
      · refine ⟨init ++ [last], 0, shorter,
          isMinimal_concat_iff.mpr (.inr ⟨last, isSecond, high⟩), ?_⟩
        rw [signMagnitude, if_pos (by decide), magnitude, number]
        simp
        omega
    · have low := not_le.mp high
      rw [littleEndian_append, littleEndian, littleEndian, mul_zero, add_zero] at number
      by_cases negative : value < 0
      · have signed := toNat_or_0x80 last low
        have digit : (last ||| 0x80).toNat % 128 = last.toNat := by omega
        refine ⟨init, last ||| 0x80, by omega, isMinimal_concat_iff.mpr (.inl (by omega)), ?_⟩
        rw [signMagnitude, if_neg (by omega), magnitude, digit, number]
        omega
      · have digit : last.toNat % 128 = last.toNat := Nat.mod_eq_of_lt low
        refine ⟨init, last, by omega, isMinimal_concat_iff.mpr (.inl (by omega)), ?_⟩
        rw [signMagnitude, if_pos low, magnitude, digit, number]
        omega

theorem setVch_nil : setVch [] = some 0 := rfl

/-- A number is written without bytes that it could do without. -/
theorem serializeNumber_cases
    (fits : value.natAbs < 2 ^ 63) :
    value = 0 ∧ serializeNumber value = [] ∨
      ∃ front back, front.length < 8 ∧ isMinimal (front ++ [back]) = true ∧
        signMagnitude front back = value ∧ serializeNumber value = front ++ [back] := by
  by_cases zero : value = 0
  · exact .inl ⟨zero, by rw [zero]; rfl⟩
  · obtain ⟨front, back, short, minimal, spelled⟩ := exists_signMagnitude zero fits
    exact .inr ⟨front, back, short, minimal, spelled,
      spelled ▸ serializeNumber_signMagnitude short minimal⟩

theorem setVch_serializeNumber
    (fits : value.natAbs < 2 ^ 63) :
    setVch (serializeNumber value) = some value := by
  obtain ⟨rfl, empty⟩ | ⟨front, back, short, -, spelled, written⟩ := serializeNumber_cases fits
  · rw [empty, setVch_nil]
  · rw [written, setVch_concat short, spelled]

theorem isMinimal_serializeNumber
    (fits : value.natAbs < 2 ^ 63) :
    isMinimal (serializeNumber value) = true := by
  obtain ⟨-, empty⟩ | ⟨front, back, -, minimal, -, written⟩ := serializeNumber_cases fits
  · rw [empty]
    rfl
  · rw [written, minimal]

/-- The bytes that pass the check are those that a number is written as. -/
theorem isMinimal_iff
    (short : vch.length ≤ 7) :
    isMinimal vch = true ↔ ∃ value, setVch vch = some value ∧ vch = serializeNumber value := by
  obtain rfl | ⟨front, back, rfl⟩ := vch.eq_nil_or_concat
  · exact iff_of_true rfl ⟨0, setVch_nil, rfl⟩
  · rw [List.concat_eq_append] at short ⊢
    rw [List.length_append, List.length_singleton] at short
    have value := @setVch_concat front back (by omega)
    have within : (signMagnitude front back).natAbs < 2 ^ 63 := by
      rw [natAbs_signMagnitude]
      exact magnitude_lt.trans_le (Nat.pow_le_pow_right (by decide) (by omega))
    constructor
    · intro minimal
      exact ⟨_, value, (serializeNumber_signMagnitude (by omega) minimal).symm⟩
    · rintro ⟨read, found, written⟩
      rw [value, Option.some.injEq] at found
      rw [written, ← found]
      exact isMinimal_serializeNumber within

theorem natAbs_toInt_lt
    (notLeast : value ≠ Int64.minValue) :
    value.toInt.natAbs < 2 ^ 63 := by
  have lower := value.le_toInt
  have upper := value.toInt_lt
  have different : value.toInt ≠ -2 ^ 63 := by
    intro least
    exact notLeast (Int64.toInt_inj.mp (least.trans Int64.toInt_minValue.symm))
  omega

/-- Every number other than the least is read back from what it is written as, and of the byte
vectors that are not too long the constructor accepts as minimal exactly those that the number
they decode to is written as. -/
theorem ofVch_exact :
    (∀ (value : Int64) (fRequireMinimal : Bool) (nMaxNumSize : Nat),
      value ≠ Int64.minValue → (serializeNumber value.toInt).length ≤ nMaxNumSize →
        ofVch (serializeNumber value.toInt) fRequireMinimal nMaxNumSize =
          some (.ok value.toInt)) ∧
    ∀ (vch : List UInt8) (nMaxNumSize : Nat),
      vch.length ≤ 4 → vch.length ≤ nMaxNumSize →
        ∃ value, setVch vch = some value ∧
          (ofVch vch true nMaxNumSize = some (.ok value) ↔ vch = serializeNumber value) ∧
          (vch ≠ serializeNumber value →
            ofVch vch true nMaxNumSize =
              some (.error "non-minimally encoded script number")) := by
  constructor
  · intro value fRequireMinimal nMaxNumSize notLeast short
    have fits := natAbs_toInt_lt notLeast
    have accepted : ¬(fRequireMinimal && !isMinimal (serializeNumber value.toInt)) = true := by
      rw [isMinimal_serializeNumber fits, Bool.not_true, Bool.and_false]
      decide
    rw [ofVch, if_neg (not_lt.mpr short), if_neg accepted, setVch_serializeNumber fits]
    rfl
  · intro vch nMaxNumSize atMostFour short
    have exact_bytes := isMinimal_iff (atMostFour.trans (by decide))
    obtain ⟨value, read⟩ : ∃ value, setVch vch = some value := by
      obtain rfl | ⟨front, back, rfl⟩ := vch.eq_nil_or_concat
      · exact ⟨0, setVch_nil⟩
      · rw [List.concat_eq_append, List.length_append, List.length_singleton] at atMostFour
        exact ⟨_, List.concat_eq_append ▸ setVch_concat (by omega)⟩
    simp only [read, Option.some.injEq, exists_eq_left'] at exact_bytes
    refine ⟨value, read, ?_⟩
    rw [ne_eq, ofVch, if_neg (not_lt.mpr short), ← exact_bytes, Bool.true_and, read]
    cases isMinimal vch with
    | true => simp
    | false => simp

/-- The number −255, and bytes that spell it with one too many. -/
theorem ofVch_exact_minus255 :
    ofVch (serializeNumber (-255)) true nDefaultMaxNumSize = some (.ok (-255)) ∧
      ∃ value, setVch [0xff, 0x00, 0x80] = some value ∧
        (ofVch [0xff, 0x00, 0x80] true 4 = some (.ok value) ↔
          [0xff, 0x00, 0x80] = serializeNumber value) := by
  refine ⟨ofVch_exact.1 (-255) true 4 (by decide) (by decide), ?_⟩
  obtain ⟨value, read, accepted, -⟩ := ofVch_exact.2 [0xff, 0x00, 0x80] 4 (by decide) (by decide)
  exact ⟨value, read, accepted⟩

end CScriptNum
end ColossusCoin
