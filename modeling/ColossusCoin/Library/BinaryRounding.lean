import Mathlib.Data.Int.Log
import Mathlib.Data.Rat.Floor

/-!
# Rounding to a binary precision

A rational number is rounded to the nearest number with so many binary digits, to the even
one at a tie.  The exponent has no limits.  Rounding keeps the order of the numbers that are
not negative, and does not change a number that has no more digits.
-/

namespace BinaryRounding

/-- The nearest integer, the even one at a tie. -/
def nearest (x : ℚ) : ℤ :=
  if x - ⌊x⌋ < 1 / 2 then ⌊x⌋
  else if 1 / 2 < x - ⌊x⌋ then ⌊x⌋ + 1
  else ⌊x⌋ + ⌊x⌋ % 2

/-- What the last of the digits of a number counts. -/
def lastPlace (precision : ℕ) (x : ℚ) : ℚ :=
  (2 : ℚ) ^ (Int.log 2 |x| - ((precision : ℤ) - 1))

/-- The number with so many digits that is nearest. -/
def roundTo (precision : ℕ) (x : ℚ) : ℚ :=
  nearest (x / lastPlace precision x) * lastPlace precision x

section Nearest

theorem floor_le_nearest (x : ℚ) : ⌊x⌋ ≤ nearest x := by
  unfold nearest
  split_ifs <;> omega

theorem nearest_le_floor_add_one (x : ℚ) : nearest x ≤ ⌊x⌋ + 1 := by
  unfold nearest
  split_ifs <;> omega

@[simp] theorem nearest_intCast (n : ℤ) : nearest n = n := by
  simp [nearest]

theorem nearest_mono (le : x ≤ y) : nearest x ≤ nearest y := by
  rcases (Int.floor_mono le).lt_or_eq with below | same
  · -- With different integers below, one lies between the two.
    calc nearest x ≤ ⌊x⌋ + 1 := nearest_le_floor_add_one x
      _ ≤ ⌊y⌋ := below
      _ ≤ nearest y := floor_le_nearest y
  · have atTie : ⌊y⌋ % 2 ≤ 1 := by omega
    unfold nearest
    rw [same]
    split_ifs <;> first | omega | linarith

theorem nearest_nonneg (nonneg : 0 ≤ x) : 0 ≤ nearest x := by
  have := nearest_mono nonneg
  rwa [← Int.cast_zero, nearest_intCast] at this

end Nearest

section Rounding

theorem lastPlace_pos (precision : ℕ) (x : ℚ) : 0 < lastPlace precision x :=
  zpow_pos two_pos _

theorem roundTo_nonneg (nonneg : 0 ≤ x) : 0 ≤ roundTo precision x := by
  have place := lastPlace_pos precision x
  exact mul_nonneg (Int.cast_nonneg (nearest_nonneg (div_nonneg nonneg place.le))) place.le

/-- A number is rounded to the power of two above it at most. -/
theorem roundTo_le_zpow
    (positive : 0 < x) :
    roundTo precision x ≤ (2 : ℚ) ^ (Int.log 2 x + 1) := by
  have place := lastPlace_pos precision x
  have above : (2 : ℚ) ^ (Int.log 2 x + 1) = ((2 ^ precision : ℤ) : ℚ) * lastPlace precision x := by
    rw [lastPlace, abs_of_pos positive, Int.cast_pow, Int.cast_ofNat, ← zpow_natCast,
      ← zpow_add₀ two_ne_zero]
    congr 1
    omega
  have below : x / lastPlace precision x ≤ ((2 ^ precision : ℤ) : ℚ) := by
    rw [div_le_iff₀ place, ← above]
    exact (Int.lt_zpow_succ_log_self one_lt_two x).le
  have rounded := nearest_mono below
  rw [nearest_intCast] at rounded
  rw [above]
  exact mul_le_mul_of_nonneg_right (Int.cast_le.mpr rounded) place.le

/-- A number is rounded to the power of two below it at least. -/
theorem zpow_le_roundTo
    (digits : 1 ≤ precision)
    (positive : 0 < x) :
    (2 : ℚ) ^ Int.log 2 x ≤ roundTo precision x := by
  have place := lastPlace_pos precision x
  have below : (2 : ℚ) ^ Int.log 2 x = ((2 ^ (precision - 1) : ℤ) : ℚ) * lastPlace precision x := by
    rw [lastPlace, abs_of_pos positive, Int.cast_pow, Int.cast_ofNat, ← zpow_natCast,
      ← zpow_add₀ two_ne_zero]
    congr 1
    omega
  have above : ((2 ^ (precision - 1) : ℤ) : ℚ) ≤ x / lastPlace precision x := by
    rw [le_div_iff₀ place, ← below]
    exact Int.zpow_log_le_self one_lt_two positive
  have rounded := nearest_mono above
  rw [nearest_intCast] at rounded
  rw [below]
  exact mul_le_mul_of_nonneg_right (Int.cast_le.mpr rounded) place.le

theorem roundTo_mono
    (digits : 1 ≤ precision)
    (nonneg : 0 ≤ x)
    (le : x ≤ y) :
    roundTo precision x ≤ roundTo precision y := by
  rcases nonneg.eq_or_lt with rfl | positive
  · have zero : roundTo precision 0 = 0 := by
      simp [roundTo, nearest]
    rw [zero]
    exact roundTo_nonneg le
  · have positive' : 0 < y := positive.trans_le le
    rcases (Int.log_mono_right positive le : Int.log 2 x ≤ Int.log 2 y).lt_or_eq with
      shorter | same
    · calc roundTo precision x ≤ (2 : ℚ) ^ (Int.log 2 x + 1) := roundTo_le_zpow positive
        _ ≤ (2 : ℚ) ^ Int.log 2 y := zpow_le_zpow_right₀ one_le_two shorter
        _ ≤ roundTo precision y := zpow_le_roundTo digits positive'
    · have samePlace : lastPlace precision x = lastPlace precision y := by
        rw [lastPlace, lastPlace, abs_of_pos positive, abs_of_pos positive', same]
      have place := lastPlace_pos precision y
      rw [roundTo, roundTo, samePlace]
      exact mul_le_mul_of_nonneg_right
        (Int.cast_le.mpr (nearest_mono (div_le_div_of_nonneg_right le place.le))) place.le

section

variable (positive : 0 < m)
include positive

theorem log_of_digits
    (e : ℤ) :
    Int.log 2 ((m : ℚ) * (2 : ℚ) ^ e) = Nat.log 2 m + e := by
  have power : (0 : ℚ) < (2 : ℚ) ^ e := zpow_pos two_pos e
  have number : (0 : ℚ) < (m : ℚ) * (2 : ℚ) ^ e := mul_pos (Nat.cast_pos.mpr positive) power
  apply le_antisymm
  · apply Int.lt_add_one_iff.mp
    rw [← Int.lt_zpow_iff_log_lt one_lt_two number, Nat.cast_ofNat, add_right_comm,
      zpow_add₀ two_ne_zero]
    have below : (m : ℚ) < (2 : ℚ) ^ ((Nat.log 2 m : ℤ) + 1) := by
      exact_mod_cast Nat.lt_pow_succ_log_self one_lt_two m
    exact mul_lt_mul_of_pos_right below power
  · rw [← Int.zpow_le_iff_le_log one_lt_two number, Nat.cast_ofNat, zpow_add₀ two_ne_zero]
    have above : (2 : ℚ) ^ (Nat.log 2 m : ℤ) ≤ (m : ℚ) := by
      exact_mod_cast Nat.pow_log_le_self 2 positive.ne'
    exact mul_le_mul_of_nonneg_right above power.le

/-- A number with no more digits stays as it is. -/
theorem roundTo_of_digits
    (fits : m < 2 ^ precision)
    (e : ℤ) :
    roundTo precision ((m : ℚ) * (2 : ℚ) ^ e) = (m : ℚ) * (2 : ℚ) ^ e := by
  have number : (0 : ℚ) < (m : ℚ) * (2 : ℚ) ^ e :=
    mul_pos (Nat.cast_pos.mpr positive) (zpow_pos two_pos e)
  have short : Nat.log 2 m < precision := Nat.log_lt_of_lt_pow positive.ne' fits
  have place := lastPlace_pos precision ((m : ℚ) * (2 : ℚ) ^ e)
  have whole : (m : ℚ) * (2 : ℚ) ^ e / lastPlace precision ((m : ℚ) * (2 : ℚ) ^ e) =
      ((m * 2 ^ (precision - 1 - Nat.log 2 m) : ℕ) : ℤ) := by
    rw [div_eq_iff place.ne', lastPlace, abs_of_pos number, log_of_digits positive,
      Int.cast_natCast, Nat.cast_mul, Nat.cast_pow, Nat.cast_ofNat, mul_assoc, ← zpow_natCast,
      ← zpow_add₀ two_ne_zero]
    congr 2
    omega
  rw [roundTo, whole, nearest_intCast, ← whole, div_mul_cancel₀ _ place.ne']

/-- A natural number with no more digits stays as it is. -/
theorem roundTo_natCast
    (fits : m < 2 ^ precision) :
    roundTo precision (m : ℚ) = m := by
  simpa using roundTo_of_digits positive fits 0

end

end Rounding

end BinaryRounding
