import Mathlib.Data.List.TakeWhile
import Mathlib.Tactic.IntervalCases
import Mathlib.Tactic.Positivity
import Mathlib.Tactic.Ring

/-!
# Decimal numerals without separators

Integers written one after the other in decimal, with nothing between them.  Read from
the left, such a text is a list of numerals each of which takes as many digits as it can;
zero takes none after its own, and a sign starts a new numeral.  Two lists of integers
are written alike exactly when the same numbers are read back.
-/

namespace DecimalNumerals

/-- The characters of an integer in decimal. -/
def numeral (number : Int) : List Char :=
  (toString number).toList

/-- The characters of several integers, one numeral after the other. -/
def written (numbers : List Int) : List Char :=
  numbers.flatMap numeral

/-- Write the digits of a natural number behind an integer. -/
def shiftIn (number : Int) (digits : Nat) : Int :=
  number * 10 ^ (Nat.toDigits 10 digits).length +
    if 0 ≤ number then (digits : Int) else -digits

/-- The numbers that are read where integers are written: one that is not negative
lengthens the one before it, unless that is zero. -/
def readBack : Int → List Int → List Int
  | number, [] => [number]
  | number, next :: rest =>
    if number ≠ 0 ∧ 0 ≤ next then readBack (shiftIn number next.toNat) rest
    else number :: readBack next rest

theorem numeral_of_nonneg
    (nonneg : 0 ≤ number) :
    numeral number = Nat.toDigits 10 number.toNat := by
  simp [numeral, Int.repr_eq_if, nonneg]

theorem numeral_of_neg
    (negative : number < 0) :
    numeral number = '-' :: Nat.toDigits 10 (-number).toNat := by
  simp [numeral, Int.repr_eq_if, not_le.mpr negative]

theorem toDigits_injective : Function.Injective (Nat.toDigits 10) := by
  intro first second same
  rw [← @Nat.ofDigitChars_ten_toDigits first, same, Nat.ofDigitChars_ten_toDigits]

theorem head?_toDigits_ne_zero
    {number : Nat}
    (positive : 0 < number) :
    (Nat.toDigits 10 number).head? ≠ some '0' := by
  induction number using Nat.strongRecOn with
  | ind number ih =>
    by_cases small : number < 10
    · rw [Nat.toDigits_of_lt_base small]
      interval_cases number <;> decide
    · rw [Nat.toDigits_of_base_le (by decide) (not_lt.mp small),
        List.head?_append_of_ne_nil _ Nat.toDigits_ne_nil]
      exact ih (number / 10) (by omega) (by omega)

theorem isDigit_of_mem_toDigits
    {number : Nat}
    (member : char ∈ Nat.toDigits 10 number) :
    char.isDigit = true :=
  Nat.isDigit_of_mem_toDigits (by decide) (by decide) member

theorem toDigits_append
    {number : Nat} (digits : Nat)
    (positive : 0 < number) :
    Nat.toDigits 10 number ++ Nat.toDigits 10 digits =
      Nat.toDigits 10 (number * 10 ^ (Nat.toDigits 10 digits).length + digits) := by
  induction digits using Nat.strongRecOn with
  | ind digits ih =>
    by_cases small : digits < 10
    · have joined := @Nat.toDigits_append_toDigits 10 number digits (by decide) positive small
      rw [joined, Nat.toDigits_of_lt_base small, List.length_singleton, pow_one, Nat.mul_comm]
    · have split := @Nat.toDigits_of_base_le 10 digits (by decide) (not_lt.mp small)
      have shorter := ih (digits / 10) (by omega)
      set shift := (Nat.toDigits 10 (digits / 10)).length with shiftIs
      have last := @Nat.toDigits_append_toDigits 10 (number * 10 ^ shift + digits / 10)
        (digits % 10) (by decide) (by positivity) (Nat.mod_lt _ (by decide))
      rw [Nat.toDigits_of_lt_base (Nat.mod_lt digits (by decide))] at last
      rw [split, ← List.append_assoc, shorter, last, List.length_append,
        List.length_singleton, ← shiftIs, pow_succ]
      congr 1
      ring_nf
      omega

/-- The numeral of an integer other than zero takes further digits. -/
theorem numeral_shiftIn
    (digits : Nat)
    (nonzero : number ≠ 0) :
    numeral (shiftIn number digits) = numeral number ++ Nat.toDigits 10 digits := by
  unfold shiftIn
  rcases lt_or_gt_of_ne nonzero with negative | positive
  · obtain ⟨size, rfl⟩ : ∃ size : Nat, number = -(size : Int) :=
      ⟨(-number).toNat, by omega⟩
    have sizePositive : 0 < size := by omega
    rw [if_neg (by omega)]
    have shifted :
        -(size : Int) * 10 ^ (Nat.toDigits 10 digits).length + -(digits : Int) =
          -((size * 10 ^ (Nat.toDigits 10 digits).length + digits : Nat) : Int) := by
      push_cast
      ring
    have shiftedPositive : 0 < size * 10 ^ (Nat.toDigits 10 digits).length + digits := by positivity
    rw [shifted, numeral_of_neg (by omega), numeral_of_neg (by omega), neg_neg, neg_neg,
      Int.toNat_natCast, Int.toNat_natCast, List.cons_append,
      toDigits_append digits sizePositive]
  · obtain ⟨size, rfl⟩ : ∃ size : Nat, number = (size : Int) :=
      ⟨number.toNat, by omega⟩
    have sizePositive : 0 < size := by omega
    rw [if_pos (by omega)]
    have shifted :
        (size : Int) * 10 ^ (Nat.toDigits 10 digits).length + (digits : Int) =
          ((size * 10 ^ (Nat.toDigits 10 digits).length + digits : Nat) : Int) := by
      push_cast
      ring
    rw [shifted, numeral_of_nonneg (by omega), numeral_of_nonneg (by omega),
      Int.toNat_natCast, Int.toNat_natCast, toDigits_append digits sizePositive]

@[simp] theorem written_cons (number : Int) (rest : List Int) :
    written (number :: rest) = numeral number ++ written rest := rfl

theorem written_readBack (number : Int) (rest : List Int) :
    written (readBack number rest) = written (number :: rest) := by
  induction rest generalizing number with
  | nil => rfl
  | cons next rest ih =>
    unfold readBack
    split_ifs with joins
    · rw [ih, written_cons, written_cons, written_cons,
        numeral_shiftIn next.toNat joins.1, numeral_of_nonneg joins.2, List.append_assoc]
    · rw [written_cons, written_cons number (next :: rest), ih]

/-- What may stand behind a number that was read: nothing but a sign, except after zero. -/
def Separated (number next : Int) : Prop :=
  number = 0 ∨ next < 0

theorem head?_readBack_neg
    (negative : number < 0) :
    ∀ head ∈ (readBack number rest).head?, head < 0 := by
  induction rest generalizing number with
  | nil => simpa [readBack] using negative
  | cons next rest ih =>
    unfold readBack
    split_ifs with joins
    · apply ih
      have scale : (0 : Int) < 10 ^ (Nat.toDigits 10 next.toNat).length := by positivity
      have scaled := mul_neg_of_neg_of_pos negative scale
      unfold shiftIn
      rw [if_neg (by omega)]
      omega
    · simpa using negative

theorem readBack_separated (number : Int) (rest : List Int) :
    (readBack number rest).IsChain Separated := by
  induction rest generalizing number with
  | nil => exact .singleton number
  | cons next rest ih =>
    unfold readBack
    split_ifs with joins
    · exact ih (shiftIn number next.toNat)
    · rw [List.isChain_cons]
      refine ⟨fun head first => ?_, ih next⟩
      by_cases zero : number = 0
      · exact .inl zero
      · have negative : next < 0 := not_le.mp fun nonneg => joins ⟨zero, nonneg⟩
        exact .inr (head?_readBack_neg negative head first)

/-- No digit comes first. -/
def NoDigitFirst (text : List Char) : Prop :=
  ∀ char ∈ text.head?, char.isDigit = false

theorem takeWhile_toDigits_append
    (number : Nat) {text : List Char}
    (noDigit : NoDigitFirst text) :
    (Nat.toDigits 10 number ++ text).takeWhile Char.isDigit = Nat.toDigits 10 number := by
  rw [List.takeWhile_append_of_pos fun char => isDigit_of_mem_toDigits]
  cases text with
  | nil => simp
  | cons char text =>
    have stops := noDigit char rfl
    simp [stops]

/-- The digits at the start of a text determine their number, where no further digit
follows or the number is zero. -/
theorem toDigits_append_inj
    (same : Nat.toDigits 10 first ++ firstText = Nat.toDigits 10 second ++ secondText)
    (firstEnds : first = 0 ∨ NoDigitFirst firstText)
    (secondEnds : second = 0 ∨ NoDigitFirst secondText) :
    first = second := by
  have sameHead : (Nat.toDigits 10 first).head? = (Nat.toDigits 10 second).head? := by
    have heads := congrArg List.head? same
    rwa [List.head?_append_of_ne_nil _ Nat.toDigits_ne_nil,
      List.head?_append_of_ne_nil _ Nat.toDigits_ne_nil] at heads
  rcases Nat.eq_zero_or_pos first with rfl | firstPositive
  · rcases Nat.eq_zero_or_pos second with rfl | secondPositive
    · rfl
    · rw [Nat.toDigits_zero] at sameHead
      exact absurd sameHead.symm (head?_toDigits_ne_zero secondPositive)
  · rcases Nat.eq_zero_or_pos second with rfl | secondPositive
    · rw [Nat.toDigits_zero] at sameHead
      exact absurd sameHead (head?_toDigits_ne_zero firstPositive)
    · apply toDigits_injective
      rw [← takeWhile_toDigits_append first (firstEnds.resolve_left firstPositive.ne'), same,
        takeWhile_toDigits_append second (secondEnds.resolve_left secondPositive.ne')]

theorem numeral_append_inj
    (same : numeral first ++ firstText = numeral second ++ secondText)
    (firstEnds : first = 0 ∨ NoDigitFirst firstText)
    (secondEnds : second = 0 ∨ NoDigitFirst secondText) :
    first = second := by
  have signOfDigits : ∀ number : Nat, (Nat.toDigits 10 number).head? ≠ some '-' := by
    intro number sign
    have digit := isDigit_of_mem_toDigits (List.mem_of_mem_head? sign)
    exact absurd digit (by decide)
  rcases le_or_gt 0 first with firstNonneg | firstNegative
  · rcases le_or_gt 0 second with secondNonneg | secondNegative
    · rw [numeral_of_nonneg firstNonneg, numeral_of_nonneg secondNonneg] at same
      have magnitudes := toDigits_append_inj same (firstEnds.imp_left (by omega))
        (secondEnds.imp_left (by omega))
      omega
    · rw [numeral_of_nonneg firstNonneg, numeral_of_neg secondNegative] at same
      have heads := congrArg List.head? same
      rw [List.head?_append_of_ne_nil _ Nat.toDigits_ne_nil] at heads
      exact absurd heads (signOfDigits _)
  · rcases le_or_gt 0 second with secondNonneg | secondNegative
    · rw [numeral_of_neg firstNegative, numeral_of_nonneg secondNonneg] at same
      have heads := congrArg List.head? same
      rw [List.head?_append_of_ne_nil _ Nat.toDigits_ne_nil] at heads
      exact absurd heads.symm (signOfDigits _)
    · rw [numeral_of_neg firstNegative, numeral_of_neg secondNegative, List.cons_append,
        List.cons_append, List.cons.injEq] at same
      have magnitudes := toDigits_append_inj same.2
        (.inr (firstEnds.resolve_left firstNegative.ne))
        (.inr (secondEnds.resolve_left secondNegative.ne))
      omega

theorem numeral_ne_nil (number : Int) : numeral number ≠ [] := by
  rcases le_or_gt 0 number with nonneg | negative
  · rw [numeral_of_nonneg nonneg]
    exact Nat.toDigits_ne_nil
  · rw [numeral_of_neg negative]
    exact List.cons_ne_nil _ _

theorem noDigitFirst_written
    (separated : (number :: rest).IsChain Separated) :
    number = 0 ∨ NoDigitFirst (written rest) := by
  cases rest with
  | nil => exact .inr fun char first => by simp [written] at first
  | cons next rest =>
    rw [List.isChain_cons_cons] at separated
    apply separated.1.imp_right
    intro negative char first
    rw [written_cons, numeral_of_neg negative] at first
    cases first
    decide

theorem written_injective
    (firstSeparated : first.IsChain Separated)
    (secondSeparated : second.IsChain Separated)
    (same : written first = written second) :
    first = second := by
  induction first generalizing second with
  | nil =>
    cases second with
    | nil => rfl
    | cons number rest => simp [written, numeral_ne_nil] at same
  | cons number rest ih =>
    cases second with
    | nil => simp [written, numeral_ne_nil] at same
    | cons other others =>
      rw [written_cons, written_cons] at same
      have sameNumber := numeral_append_inj same (noDigitFirst_written firstSeparated)
        (noDigitFirst_written secondSeparated)
      subst sameNumber
      have sameRest := ih firstSeparated.tail secondSeparated.tail (List.append_cancel_left same)
      exact congrArg (number :: ·) sameRest

theorem written_eq_iff (first second : Int) (firstRest secondRest : List Int) :
    written (first :: firstRest) = written (second :: secondRest) ↔
      readBack first firstRest = readBack second secondRest := by
  rw [← written_readBack first, ← written_readBack second]
  constructor
  · exact written_injective (readBack_separated first firstRest)
      (readBack_separated second secondRest)
  · exact congrArg written

end DecimalNumerals
