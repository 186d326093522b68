import ColossusCoin.ChainParams
import Mathlib.Data.List.TakeWhile
import Mathlib.Tactic.Ring

/-!
# Amounts as strings

`FormatMoney` writes an amount with at least two decimals, and `ParseMoney` reads what a user has
written.  A string is a list of characters.
-/

namespace ColossusCoin
namespace MoneyStrings

def cent : Nat := 1000000

/-- The loop that counts excess zeros, at a character; no result where it looks in front of the
string. -/
def trimLoop (str : List Char) : Nat → Option Nat
  | 0 => if str[0]? = some '0' then none else some 0
  | i + 1 =>
    if str[i + 1]? = some '0' then
      if i = 0 then none
      else if (str[i - 1]?.getD '.').isDigit then (trimLoop str i).map (· + 1)
      else some 0
    else some 0

/-- `strprintf("%d.%08d", quotient, remainder)`. -/
def printed (quotient remainder : Nat) : List Char :=
  Nat.toDigits 10 quotient ++ '.' :: (Nat.toDigits 10 remainder).leftpad 8 '0'

def formatMoney (n : Int) (fPlus : Bool) : Option (List Char) := do
  let nAbs := n.natAbs
  let str := printed (nAbs / coin.toNat) (nAbs % coin.toNat)
  let nTrim ← trimLoop str (str.length - 1)
  let str := str.take (str.length - nTrim)
  pure (if n < 0 then '-' :: str else if fPlus && 0 < n then '+' :: str else str)

def isSpace (c : Char) : Bool :=
  c ∈ [' ', '\t', '\n', '\x0b', '\x0c', '\r']

/-- The digits behind the point: the units, and what follows. -/
def unitsLoop : Nat → Nat → List Char → Nat × List Char
  | _, nUnits, [] => (nUnits, [])
  | nMult, nUnits, c :: p =>
    if c.isDigit ∧ 0 < nMult then
      unitsLoop (nMult / 10) (nUnits + nMult * (c.toNat - '0'.toNat)) p
    else (nUnits, c :: p)

/-- The first loop over the characters: the whole digits, the units and what follows; no result
where a character is neither digit, point nor space. -/
def wholeLoop : List Char → List Char → Option (List Char × Nat × List Char)
  | strWhole, [] => some (strWhole, 0, [])
  | strWhole, c :: p =>
    if c = '.' then some (strWhole, unitsLoop (cent * 10) 0 p)
    else if isSpace c then some (strWhole, 0, c :: p)
    else if !c.isDigit then none
    else wholeLoop (strWhole ++ [c]) p

/-- `atoi64` of at most ten digits. -/
def atoi64 (digits : List Char) : Int :=
  Nat.ofDigitChars 10 digits 0

/-- `ParseMoney`: the amount, where it succeeds. -/
def parseMoney (str : List Char) : Option Int := do
  let pszIn := str.takeWhile (· ≠ '\x00')
  let (strWhole, nUnits, p) ← wholeLoop [] (pszIn.dropWhile isSpace)
  if p.any (!isSpace ·) then none
  else if 10 < strWhole.length then none
  else if (nUnits : Int) < 0 ∨ coin < nUnits then none
  else some (atoi64 strWhole * coin + nUnits)

/-- All of the characters are digits. -/
def Digits (chars : List Char) : Prop :=
  ∀ c ∈ chars, c.isDigit = true

theorem digits_toDigits (n : Nat) : Digits (Nat.toDigits 10 n) := fun _ member =>
  Nat.isDigit_of_mem_toDigits (by decide) (by decide) member

theorem Digits.take
    (digits : Digits chars)
    (n : Nat) :
    Digits (chars.take n) := fun c member => digits c (List.mem_of_mem_take member)

theorem isSpace_of_isDigit
    {c : Char}
    (digit : c.isDigit = true) :
    isSpace c = false := by
  rw [isSpace, decide_eq_false_iff_not]
  intro member
  have noDigit : ∀ space ∈ [' ', '\t', '\n', '\x0b', '\x0c', '\r'], space.isDigit = false := by
    simp
  exact Bool.false_ne_true ((noDigit c member).symm.trans digit)

theorem ne_point_of_isDigit
    (digit : c.isDigit = true) :
    c ≠ '.' := by
  rintro rfl
  exact absurd digit (by decide)

/-- The eight decimals. -/
def decimals (remainder : Nat) : List Char :=
  (Nat.toDigits 10 remainder).leftpad 8 '0'

section Decimals

theorem digits_decimals : Digits (decimals remainder) := by
  intro c member
  rw [decimals, List.leftpad, List.mem_append] at member
  obtain zero | digit := member
  · rw [List.eq_of_mem_replicate zero]
    decide
  · exact digits_toDigits remainder c digit

theorem length_decimals
    (small : remainder < 10 ^ 8) :
    (decimals remainder).length = 8 := by
  have short := (Nat.length_toDigits_le_iff (by decide : 1 < 10) (by decide : 0 < 8)).mpr small
  rw [decimals, List.length_leftpad, Nat.max_eq_left short]

theorem ofDigitChars_decimals : Nat.ofDigitChars 10 (decimals remainder) 0 = remainder := by
  rw [decimals, List.leftpad, Nat.ofDigitChars_append, Nat.ofDigitChars_replicate_zero, mul_zero,
    Nat.ofDigitChars_ten_toDigits]

end Decimals

/-- Trimming takes zeros off the decimals, and leaves two of them. -/
theorem trimLoop_spec
    (whole : List Char)
    (digits : Digits fraction)
    (two : 2 ≤ place)
    (within : place ≤ fraction.length) :
    ∃ nTrim, trimLoop (whole ++ '.' :: fraction) (whole.length + place) = some nTrim ∧
      nTrim + 2 ≤ place ∧
      fraction.take place = fraction.take (place - nTrim) ++ List.replicate nTrim '0' := by
  have behind : ∀ i, (whole ++ '.' :: fraction)[whole.length + (i + 1)]? = fraction[i]? := by
    intro i
    rw [List.getElem?_append_right (Nat.le_add_right _ _), Nat.add_sub_cancel_left,
      List.getElem?_cons_succ]
  have point : (whole ++ '.' :: fraction)[whole.length]? = some '.' := by
    rw [List.getElem?_append_right (le_refl _), Nat.sub_self, List.getElem?_cons_zero]
  induction place, two using Nat.le_induction with
  | base =>
    refine ⟨0, ?_, le_refl _, by simp⟩
    have before : whole.length + 1 - 1 = whole.length := Nat.add_sub_cancel _ _
    rw [trimLoop, before, point]
    split_ifs with _ front digit
    · omega
    · exact absurd digit (by decide)
    · rfl
    · rfl
  | succ place two ih =>
    obtain ⟨nTrim, trimmed, left, zeros⟩ := ih (by omega)
    have last := behind place
    obtain ⟨second, rfl⟩ : ∃ second, place = second + 2 := ⟨place - 2, by omega⟩
    have before : whole.length + (second + 2) - 1 = whole.length + (second + 1) := by omega
    obtain ⟨char, found⟩ : ∃ char, fraction[second]? = some char :=
      ⟨_, List.getElem?_eq_getElem (by omega)⟩
    have isDigit := digits char (List.mem_of_getElem? found)
    have inside : whole.length + (second + 2) ≠ 0 := by omega
    rw [← Nat.add_assoc, trimLoop, Nat.add_assoc, last, before, behind, found, Option.getD_some]
    by_cases zero : fraction[second + 2]? = some '0'
    · refine ⟨nTrim + 1, ?_, by omega, ?_⟩
      · rw [if_pos zero, if_neg inside, if_pos isDigit, trimmed]
        rfl
      · rw [List.take_add_one, zero, zeros, List.replicate_succ', ← List.append_assoc,
          Nat.add_sub_add_right]
        rfl
    · exact ⟨0, if_neg zero, by omega, by simp⟩

/-- The digits behind the point are the units, scaled by what they lack of all places. -/
theorem unitsLoop_digits
    {chars : List Char}
    (digits : Digits chars)
    {places nUnits : Nat}
    (fit : chars.length ≤ places + 1) :
    unitsLoop (10 ^ places) nUnits chars =
      (nUnits + Nat.ofDigitChars 10 chars 0 * 10 ^ (places + 1 - chars.length), []) := by
  induction chars generalizing places nUnits with
  | nil => rw [unitsLoop, Nat.ofDigitChars_nil, zero_mul, add_zero]
  | cons c chars ih =>
    have digit := digits c List.mem_cons_self
    have others : Digits chars := fun other member => digits other (List.mem_cons_of_mem c member)
    have place : c.isDigit = true ∧ 0 < 10 ^ places := ⟨digit, Nat.pow_pos (by decide)⟩
    rw [List.length_cons] at fit
    rw [unitsLoop, if_pos place, Nat.ofDigitChars_cons, mul_zero, zero_add,
      Nat.ofDigitChars_eq_ofDigitChars_zero, List.length_cons]
    cases places with
    | zero =>
      have noMore : chars = [] := List.length_eq_zero_iff.mp (by omega)
      subst noMore
      simp [unitsLoop]
    | succ places =>
      have scale : 10 ^ (places + 1) / 10 = 10 ^ places := by
        rw [pow_succ, Nat.mul_div_cancel _ (by decide)]
      have power : 10 ^ (places + 1) = 10 ^ chars.length * 10 ^ (places + 1 - chars.length) := by
        rw [← pow_add]
        congr 1
        omega
      rw [scale, ih others (by omega), Nat.add_sub_add_right, power]
      congr 1
      ring

theorem wholeLoop_digits
    {whole : List Char}
    (digits : Digits whole)
    (strWhole fraction : List Char) :
    wholeLoop strWhole (whole ++ '.' :: fraction) =
      some (strWhole ++ whole, unitsLoop (cent * 10) 0 fraction) := by
  induction whole generalizing strWhole with
  | nil => rw [List.nil_append, wholeLoop, if_pos rfl, List.append_nil]
  | cons c whole ih =>
    have digit := digits c List.mem_cons_self
    have space : ¬isSpace c = true := by
      rw [isSpace_of_isDigit digit]
      decide
    have others : Digits whole := fun other member => digits other (List.mem_cons_of_mem c member)
    rw [List.cons_append, wholeLoop, if_neg (ne_point_of_isDigit digit), if_neg space, digit,
      if_neg (by decide), ih others, List.append_assoc, List.singleton_append]

/-- A string of digits, a point and at most eight decimals is read as the amount that it spells,
if it has at most ten whole digits. -/
theorem parseMoney_digits
    {units : Nat}
    (digits : Digits whole)
    (decimal : Digits fraction)
    (nonempty : whole ≠ [])
    (short : fraction.length ≤ 8)
    (value : Nat.ofDigitChars 10 fraction 0 * 10 ^ (8 - fraction.length) = units)
    (below : units < coin) :
    parseMoney (whole ++ '.' :: fraction) =
      if 10 < whole.length then none else some (atoi64 whole * coin + units) := by
  have noEnd : (whole ++ '.' :: fraction).takeWhile (· ≠ '\x00') = whole ++ '.' :: fraction := by
    refine List.takeWhile_eq_self_iff.mpr fun c member => ?_
    rw [List.mem_append, List.mem_cons] at member
    have printable : c = '.' ∨ c.isDigit = true := by
      obtain inWhole | point | inFraction := member
      · exact .inr (digits c inWhole)
      · exact .inl point
      · exact .inr (decimal c inFraction)
    rw [decide_eq_true_eq]
    rintro rfl
    revert printable
    decide
  have noSpace : (whole ++ '.' :: fraction).dropWhile isSpace = whole ++ '.' :: fraction := by
    obtain ⟨c, rest, rfl⟩ := List.exists_cons_of_ne_nil nonempty
    rw [List.cons_append, List.dropWhile_cons_of_neg]
    rw [isSpace_of_isDigit (digits c List.mem_cons_self)]
    decide
  have read := @unitsLoop_digits fraction decimal 7 0 short
  have money : ¬((units : Int) < 0 ∨ coin < units) := by omega
  have start : cent * 10 = 10 ^ 7 := by decide
  rw [zero_add, value] at read
  rw [parseMoney, noEnd, noSpace, wholeLoop_digits digits, start, read]
  simp only [Option.bind_eq_bind, Option.bind_some, List.nil_append, List.any_nil,
    Bool.false_eq_true, if_false, if_neg money]

/-- What an amount is written as: its whole digits and the decimals, less some zeros. -/
theorem formatMoney_of_nonneg
    (nonneg : 0 ≤ n) :
    ∃ nTrim, nTrim ≤ 6 ∧
      formatMoney n false = some (Nat.toDigits 10 (n.natAbs / coin.toNat) ++
        '.' :: (decimals (n.natAbs % coin.toNat)).take (8 - nTrim)) ∧
      decimals (n.natAbs % coin.toNat) =
        (decimals (n.natAbs % coin.toNat)).take (8 - nTrim) ++ List.replicate nTrim '0' := by
  have small : n.natAbs % coin.toNat < 10 ^ 8 := Nat.mod_lt _ (by decide)
  have length := length_decimals small
  obtain ⟨nTrim, trimmed, left, zeros⟩ := trimLoop_spec
    (Nat.toDigits 10 (n.natAbs / coin.toNat)) (@digits_decimals (n.natAbs % coin.toNat))
    (by decide : 2 ≤ 8) (by omega)
  have whole : (decimals (n.natAbs % coin.toNat)).take 8 = decimals (n.natAbs % coin.toNat) :=
    List.take_of_length_le (by omega)
  rw [whole] at zeros
  refine ⟨nTrim, by omega, ?_, zeros⟩
  have last : (printed (n.natAbs / coin.toNat) (n.natAbs % coin.toNat)).length - 1 =
      (Nat.toDigits 10 (n.natAbs / coin.toNat)).length + 8 := by
    rw [printed, ← decimals, List.length_append, List.length_cons, length]
    rfl
  have kept : (printed (n.natAbs / coin.toNat) (n.natAbs % coin.toNat)).length - nTrim =
      (Nat.toDigits 10 (n.natAbs / coin.toNat)).length + ((8 - nTrim) + 1) := by omega
  rw [formatMoney]
  rw [last]
  rw [printed, ← decimals] at kept ⊢
  simp only [trimmed, kept, Option.bind_eq_bind, Option.bind_some, if_neg (not_lt.mpr nonneg),
    Bool.false_and, Bool.false_eq_true, if_false, List.take_length_add_append,
    List.take_succ_cons]
  rfl

/-- What is read where an amount was written. -/
theorem parseMoney_formatMoney
    (nonneg : 0 ≤ n) :
    (formatMoney n false).bind parseMoney = if n < 10 ^ 10 * coin then some n else none := by
  obtain ⟨nTrim, few, written, zeros⟩ := formatMoney_of_nonneg nonneg
  have small : n.natAbs % coin.toNat < 10 ^ 8 := Nat.mod_lt _ (by decide)
  have kept : ((decimals (n.natAbs % coin.toNat)).take (8 - nTrim)).length = 8 - nTrim := by
    rw [List.length_take, length_decimals small]
    omega
  have units : Nat.ofDigitChars 10 ((decimals (n.natAbs % coin.toNat)).take (8 - nTrim)) 0 *
      10 ^ (8 - ((decimals (n.natAbs % coin.toNat)).take (8 - nTrim)).length) =
        n.natAbs % coin.toNat := by
    have whole := @ofDigitChars_decimals (n.natAbs % coin.toNat)
    rw [zeros, Nat.ofDigitChars_append, Nat.ofDigitChars_replicate_zero] at whole
    rw [kept, Nat.sub_sub_self (by omega), mul_comm, whole]
  have natural : coin.toNat = 100000000 := by decide
  have integer : coin = 100000000 := by decide
  have below : ((n.natAbs % coin.toNat : Nat) : Int) < coin := by
    rw [natural, integer]
    omega
  have ten : 10 < (Nat.toDigits 10 (n.natAbs / coin.toNat)).length ↔ ¬n < 10 ^ 10 * coin := by
    rw [← not_le, Nat.length_toDigits_le_iff (by decide) (by decide), natural, integer]
    omega
  rw [written, Option.bind_some, parseMoney_digits (digits_toDigits _) (digits_decimals.take _)
    Nat.toDigits_ne_nil (by omega) units below, atoi64, Nat.ofDigitChars_ten_toDigits]
  by_cases fits : n < 10 ^ 10 * coin
  · rw [if_neg (ten.not.mpr (not_not.mpr fits)), if_pos fits, natural, integer]
    congr 1
    omega
  · rw [if_pos (ten.mpr fits), if_neg fits]

/-- An amount is read back from what it is written as exactly if its whole part has no more than
ten digits. -/
theorem parseMoney_formatMoney_iff
    {n : Int}
    (nonneg : 0 ≤ n) :
    (formatMoney n false).bind parseMoney = some n ↔ n < 10 ^ 10 * coin := by
  rw [parseMoney_formatMoney nonneg]
  split_ifs with fits
  · exact iff_of_true rfl fits
  · exact iff_of_false (by simp) fits

theorem parseMoney_formatMoney_iff_zero :
    (formatMoney 0 false).bind parseMoney = some 0 ↔ 0 < 10 ^ 10 * coin :=
  parseMoney_formatMoney_iff (le_refl 0)

/-- Ten billion coins are half of the supply, and are not read back. -/
theorem parseMoney_formatMoney_of_supply :
    ¬∀ params : CChainParams, params.IsNetwork → ∀ n, 0 ≤ n → n ≤ params.nMaxMoneyOut →
      (formatMoney n false).bind parseMoney = some n := by
  intro all
  have read := all .main (.inl rfl) (10 ^ 10 * coin) (by decide) (by decide)
  rw [parseMoney_formatMoney (by decide), if_neg (lt_irrefl _)] at read
  cases read

end MoneyStrings
end ColossusCoin
