import Mathlib.Data.Nat.Digits.Lemmas

/-!
# Conversion between bases in a buffer

A numeral is read digit by digit, the highest first, and each digit is taken into a buffer of
digits of another base: the buffer is multiplied and the digit added, from the lowest place up.
A buffer that has room for all numerals of this length never carries over, and what it holds
without leading zeros is the numeral of the same number.
-/

namespace BaseConversion

/-- The number that digits spell, the highest first. -/
def value (base : Nat) (digits : List Nat) : Nat :=
  Nat.ofDigits base digits.reverse

/-- Multiply the number in a buffer and add to it; what does not fit is carried over. -/
def mulAdd (base factor : Nat) : List Nat → Nat → List Nat × Nat
  | [], carry => ([], carry)
  | digit :: digits, carry =>
    let lower := mulAdd base factor digits carry
    let carry := lower.2 + factor * digit
    (carry % base :: lower.1, carry / base)

/-- Take digits into a buffer; no result where one is carried over. -/
def takeIn (base factor : Nat) : List Nat → List Nat → Option (List Nat)
  | buffer, [] => some buffer
  | buffer, digit :: digits =>
    let next := mulAdd base factor buffer digit
    if next.2 ≠ 0 then none else takeIn base factor next.1 digits

/-- The digits without leading zeros. -/
def stripped (digits : List Nat) : List Nat :=
  digits.dropWhile (· == 0)

/-- Digits of a base, without leading zeros. -/
structure IsNumeral (base : Nat) (digits : List Nat) : Prop where
  below : ∀ digit ∈ digits, digit < base
  leading : digits.head? ≠ some 0

section Values

@[simp] theorem value_nil : value base [] = 0 := Nat.ofDigits_nil

theorem value_cons (digit : Nat) (digits : List Nat) :
    value base (digit :: digits) = base ^ digits.length * digit + value base digits := by
  rw [value, List.reverse_cons, Nat.ofDigits_append, Nat.ofDigits_singleton, List.length_reverse,
    add_comm, value]

theorem value_replicate_zero (size : Nat) : value base (List.replicate size 0) = 0 := by
  rw [value, List.reverse_replicate, Nat.ofDigits_replicate_zero]

theorem value_stripped (digits : List Nat) : value base (stripped digits) = value base digits := by
  induction digits with
  | nil => rfl
  | cons digit digits ih =>
    rw [stripped, List.dropWhile_cons]
    split_ifs with zero
    · rw [← stripped, ih, value_cons, beq_iff_eq.mp zero, mul_zero, zero_add]
    · rfl

/-- A numeral is determined by its number. -/
theorem IsNumeral.eq_of_value
    (large : 1 < base)
    (firstNumeral : IsNumeral base first)
    (secondNumeral : IsNumeral base second)
    (same : value base first = value base second) :
    first = second := by
  have digits : ∀ {numeral : List Nat}, IsNumeral base numeral →
      Nat.digits base (value base numeral) = numeral.reverse := by
    intro numeral isNumeral
    refine Nat.digits_ofDigits base large numeral.reverse
      (fun digit member => isNumeral.below digit (List.mem_reverse.mp member)) fun nonempty => ?_
    rw [List.getLast_reverse]
    intro zero
    exact isNumeral.leading (zero ▸ List.head?_eq_some_head _)
  have reversed := (digits firstNumeral).symm.trans ((congrArg _ same).trans (digits secondNumeral))
  exact List.reverse_inj.mp reversed

end Values

section Steps

theorem length_mulAdd : (mulAdd base factor buffer carry).1.length = buffer.length := by
  induction buffer with
  | nil => rfl
  | cons digit digits ih =>
    rw [mulAdd, List.length_cons, List.length_cons, ih]

theorem mulAdd_lt
    (positive : 0 < base) :
    ∀ digit ∈ (mulAdd base factor buffer carry).1, digit < base := by
  induction buffer with
  | nil => exact fun digit member => absurd member List.not_mem_nil
  | cons digit digits ih =>
    rw [mulAdd, List.forall_mem_cons]
    exact ⟨Nat.mod_lt _ positive, ih⟩

/-- The buffer and what is carried over are the number multiplied and added to. -/
theorem value_mulAdd :
    value base (mulAdd base factor buffer carry).1 +
        base ^ buffer.length * (mulAdd base factor buffer carry).2 =
      factor * value base buffer + carry := by
  induction buffer with
  | nil => simp [mulAdd]
  | cons digit digits ih =>
    have division := Nat.mod_add_div ((mulAdd base factor digits carry).2 + factor * digit) base
    simp only [mulAdd, value_cons, length_mulAdd, List.length_cons, pow_succ]
    calc base ^ digits.length * (((mulAdd base factor digits carry).2 + factor * digit) % base) +
            value base (mulAdd base factor digits carry).1 +
            base ^ digits.length * base *
              (((mulAdd base factor digits carry).2 + factor * digit) / base)
        _ = base ^ digits.length *
              (((mulAdd base factor digits carry).2 + factor * digit) % base +
                base * (((mulAdd base factor digits carry).2 + factor * digit) / base)) +
            value base (mulAdd base factor digits carry).1 := by ring
        _ = (value base (mulAdd base factor digits carry).1 +
              base ^ digits.length * (mulAdd base factor digits carry).2) +
            factor * (base ^ digits.length * digit) := by rw [division]; ring
        _ = factor * (base ^ digits.length * digit + value base digits) + carry := by
            rw [ih]; ring

/-- Nothing is carried over where there is room. -/
theorem carry_mulAdd
    (room : factor * value base buffer + carry < base ^ buffer.length) :
    (mulAdd base factor buffer carry).2 = 0 := by
  have number := @value_mulAdd base factor buffer carry
  by_contra carried
  have least := Nat.le_mul_of_pos_right (base ^ buffer.length) (Nat.pos_of_ne_zero carried)
  omega

end Steps

section Runs

theorem takeIn_spec
    (positive : 0 < base)
    (below : ∀ digit ∈ digits, digit < factor)
    (held : ∀ digit ∈ buffer, digit < base)
    (number : value base buffer < factor ^ before)
    (room : factor ^ (before + digits.length) ≤ base ^ buffer.length) :
    ∃ after, takeIn base factor buffer digits = some after ∧ (∀ digit ∈ after, digit < base) ∧
      value base after = factor ^ digits.length * value base buffer + value factor digits := by
  induction digits generalizing buffer before with
  | nil => exact ⟨buffer, rfl, held, by simp⟩
  | cons digit digits ih =>
    have small := below digit List.mem_cons_self
    have next : factor * value base buffer + digit < factor ^ (before + 1) := by
      calc factor * value base buffer + digit < factor * (value base buffer + 1) := by
            rw [mul_add, mul_one]; omega
        _ ≤ factor * factor ^ before := Nat.mul_le_mul_left factor number
        _ = factor ^ (before + 1) := by ring
    rw [List.length_cons, ← Nat.add_assoc, Nat.add_right_comm] at room
    have fits : factor ^ (before + 1) ≤ base ^ buffer.length := by
      refine (Nat.pow_le_pow_right ?_ (Nat.le_add_right _ digits.length)).trans room
      omega
    have nothingOver := carry_mulAdd (next.trans_le fits)
    have value_next := @value_mulAdd base factor buffer digit
    rw [nothingOver, mul_zero, add_zero] at value_next
    obtain ⟨after, taken, digits_after, value_after⟩ := ih
      (fun other member => below other (List.mem_cons_of_mem digit member))
      (mulAdd_lt positive) (value_next ▸ next) (length_mulAdd.symm ▸ room)
    refine ⟨after, ?_, digits_after, ?_⟩
    · rw [takeIn, if_neg (not_not.mpr nothingOver), taken]
    · rw [value_after, value_next, value_cons, List.length_cons]
      ring

theorem isNumeral_stripped
    (below : ∀ digit ∈ digits, digit < base) :
    IsNumeral base (stripped digits) where
  below digit member := below digit ((List.dropWhile_sublist _).subset member)
  leading := by
    intro first
    have stays := List.head?_dropWhile_not (· == 0) digits
    rw [← stripped, first] at stays
    exact Bool.true_eq_false_eq_False stays

theorem takeIn_replicate_zero
    (positive : 0 < base)
    (below : ∀ digit ∈ digits, digit < factor)
    (room : factor ^ digits.length ≤ base ^ size) :
    ∃ after, takeIn base factor (List.replicate size 0) digits = some after ∧
      IsNumeral base (stripped after) ∧ value base (stripped after) = value factor digits := by
  have zeros : ∀ digit ∈ List.replicate size 0, digit < base := fun digit member =>
    List.eq_of_mem_replicate member ▸ positive
  have start : value base (List.replicate size 0) < factor ^ 0 := by
    rw [value_replicate_zero]
    exact Nat.one_pos
  obtain ⟨after, taken, digits_after, value_after⟩ :=
    takeIn_spec positive below zeros start (by rwa [zero_add, List.length_replicate])
  refine ⟨after, taken, isNumeral_stripped digits_after, ?_⟩
  rw [value_stripped, value_after, value_replicate_zero, mul_zero, zero_add]

/-- A rational above the ratio of the logarithms gives room for every length. -/
theorem pow_le_pow_of_ratio
    {numerator denominator : Nat}
    (positive : 0 < base)
    (ratio : factor ^ denominator ≤ base ^ numerator)
    (nonzero : denominator ≠ 0)
    (length : Nat) :
    factor ^ length ≤ base ^ (length * numerator / denominator + 1) := by
  have quotient : length * numerator ≤ denominator * (length * numerator / denominator + 1) := by
    have division := Nat.div_add_mod (length * numerator) denominator
    have remainder := Nat.mod_lt (length * numerator) (Nat.pos_of_ne_zero nonzero)
    rw [mul_add, mul_one]
    omega
  rw [← Nat.pow_le_pow_iff_left nonzero]
  calc (factor ^ length) ^ denominator = (factor ^ denominator) ^ length := by
        rw [← pow_mul, ← pow_mul, mul_comm]
    _ ≤ (base ^ numerator) ^ length := Nat.pow_le_pow_left ratio length
    _ = base ^ (length * numerator) := by rw [← pow_mul, mul_comm]
    _ ≤ base ^ (denominator * (length * numerator / denominator + 1)) :=
        Nat.pow_le_pow_right positive quotient
    _ = (base ^ (length * numerator / denominator + 1)) ^ denominator := by
        rw [← pow_mul, mul_comm]

end Runs

end BaseConversion
