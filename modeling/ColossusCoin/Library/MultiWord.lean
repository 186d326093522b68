import Mathlib.Data.Nat.Size
import Mathlib.Tactic.Ring

/-!
# Numbers of several words

Unsigned numbers of a fixed size as lists of machine words, the lowest first.  Complement,
addition with carry, subtraction, comparison, shifts and division by shifting and subtracting work
word by word; each computes what it should of the numbers, modulo the size.
-/

namespace MultiWord

/-- The number. -/
def value : List (BitVec w) → Nat
  | [] => 0
  | word :: rest => word.toNat + 2 ^ w * value rest

/-- The limit of the numbers of so many words. -/
def limit (w length : Nat) : Nat := 2 ^ (w * length)

theorem limit_succ (length : Nat) : limit w (length + 1) = 2 ^ w * limit w length := by
  rw [limit, limit, Nat.mul_succ, Nat.pow_add, Nat.mul_comm]

theorem limit_pos (length : Nat) : 0 < limit w length := Nat.two_pow_pos _

theorem value_lt (words : List (BitVec w)) : value words < limit w words.length := by
  induction words with
  | nil => exact limit_pos 0
  | cons word rest ih =>
    rw [value, List.length_cons, limit_succ]
    calc word.toNat + 2 ^ w * value rest < 2 ^ w + 2 ^ w * value rest := by omega
      _ = 2 ^ w * (value rest + 1) := by ring
      _ ≤ 2 ^ w * limit w rest.length := Nat.mul_le_mul_left _ ih

theorem mod_limit_succ (number length : Nat) :
    number % limit w (length + 1) = number % 2 ^ w + 2 ^ w * (number / 2 ^ w % limit w length) := by
  rw [limit_succ, Nat.mod_mul]

theorem add_mul_mod (low high : Nat) : (low + 2 ^ w * high) % 2 ^ w = low % 2 ^ w :=
  Nat.add_mul_mod_self_left low (2 ^ w) high

theorem add_mul_div (low high : Nat) : (low + 2 ^ w * high) / 2 ^ w = low / 2 ^ w + high :=
  Nat.add_mul_div_left low high (Nat.two_pow_pos w)

theorem value_append (lower upper : List (BitVec w)) :
    value (lower ++ upper) = value lower + 2 ^ (w * lower.length) * value upper := by
  induction lower with
  | nil => rw [List.nil_append, value, List.length_nil, Nat.mul_zero, Nat.pow_zero, Nat.zero_add,
      Nat.one_mul]
  | cons word rest ih =>
    rw [List.cons_append, value, ih, value, List.length_cons, Nat.mul_succ, Nat.pow_add]
    ring

variable {second : List (BitVec w)}

theorem value_injective
    (same : first.length = second.length)
    (equal : value first = value second) :
    first = second := by
  induction first generalizing second with
  | nil => exact (List.length_eq_zero_iff.mp same.symm).symm
  | cons word rest ih =>
    obtain ⟨other, others, rfl⟩ := List.exists_cons_of_length_eq_add_one same.symm
    rw [value, value] at equal
    have lowest := congrArg (· % 2 ^ w) equal
    have highest := congrArg (· / 2 ^ w) equal
    rw [add_mul_mod, add_mul_mod, Nat.mod_eq_of_lt word.isLt, Nat.mod_eq_of_lt other.isLt] at lowest
    rw [add_mul_div, add_mul_div, Nat.div_eq_of_lt word.isLt, Nat.div_eq_of_lt other.isLt,
      Nat.zero_add, Nat.zero_add] at highest
    rw [BitVec.eq_of_toNat_eq lowest, ih (Nat.succ.inj same) highest]

theorem value_set
    (words : List (BitVec w))
    (inside : index < words.length)
    (word : BitVec w) :
    value (words.set index word) + 2 ^ (w * index) * (words[index]).toNat =
      value words + 2 ^ (w * index) * word.toNat := by
  induction words generalizing index with
  | nil => cases inside
  | cons first rest ih =>
    cases index with
    | zero =>
      rw [List.set_cons_zero, value, value, List.getElem_cons_zero, Nat.mul_zero, Nat.pow_zero]
      ring
    | succ index =>
      have upper := ih (Nat.lt_of_succ_lt_succ inside)
      have place : 2 ^ (w * (index + 1)) = 2 ^ w * 2 ^ (w * index) := by
        rw [Nat.mul_succ, Nat.pow_add, Nat.mul_comm]
      rw [List.set_cons_succ, value, value, List.getElem_cons_succ, place, Nat.add_assoc,
        Nat.add_assoc, Nat.mul_assoc, Nat.mul_assoc, ← Nat.mul_add, ← Nat.mul_add, upper]

/-- The words are inverted. -/
def complement (words : List (BitVec w)) : List (BitVec w) := words.map fun word => ~~~word

@[simp] theorem length_complement (words : List (BitVec w)) :
    (complement words).length = words.length :=
  List.length_map _

theorem value_complement (words : List (BitVec w)) :
    value (complement words) = limit w words.length - 1 - value words := by
  have sum : value (complement words) + value words + 1 = limit w words.length := by
    induction words with
    | nil => rfl
    | cons word rest ih =>
      rw [complement, List.map_cons, value, value, BitVec.toNat_not, List.length_cons, limit_succ,
        ← ih, ← complement]
      have parts : 2 ^ w - 1 - word.toNat + word.toNat + 1 = 2 ^ w := by omega
      calc 2 ^ w - 1 - word.toNat + 2 ^ w * value (complement rest) +
            (word.toNat + 2 ^ w * value rest) + 1
          = 2 ^ w - 1 - word.toNat + word.toNat + 1 +
              2 ^ w * (value (complement rest) + value rest) := by ring
        _ = 2 ^ w * (value (complement rest) + value rest + 1) := by rw [parts]; ring
  omega

/-- One is added to the lowest word, and to the next one as long as zero comes out. -/
def increment : List (BitVec w) → List (BitVec w)
  | [] => []
  | word :: rest => if word + 1 = 0 then (word + 1) :: increment rest else (word + 1) :: rest

@[simp] theorem length_increment (words : List (BitVec w)) :
    (increment words).length = words.length := by
  induction words with
  | nil => rfl
  | cons word rest ih =>
    rw [increment]
    split_ifs
    · rw [List.length_cons, ih, List.length_cons]
    · rfl

theorem value_increment (words : List (BitVec w)) :
    value (increment words) = (value words + 1) % limit w words.length := by
  induction words with
  | nil => exact (Nat.mod_one _).symm
  | cons word rest ih =>
    have bounded := value_lt rest
    have one : (word + 1).toNat = (word.toNat + 1) % 2 ^ w := by
      have last : (1 : BitVec w).toNat = 1 % 2 ^ w := BitVec.toNat_ofNat 1 w
      rw [BitVec.toNat_add, last, Nat.add_mod_mod]
    have sum : value (word :: rest) + 1 = word.toNat + 1 + 2 ^ w * value rest := by
      rw [value]
      ring
    rw [List.length_cons, sum, mod_limit_succ, add_mul_mod, add_mul_div, increment]
    split_ifs with carries
    · have full : word.toNat + 1 = 2 ^ w := by
        have none : (word.toNat + 1) % 2 ^ w = 0 := by rw [← one, carries]; rfl
        rcases Nat.lt_or_ge (word.toNat + 1) (2 ^ w) with less | atLeast
        · rw [Nat.mod_eq_of_lt less] at none
          omega
        · omega
      rw [value, one, ih, full, Nat.div_self (Nat.two_pow_pos w), Nat.add_comm 1]
    · have less : word.toNat + 1 < 2 ^ w := by
        by_contra full
        refine carries (BitVec.eq_of_toNat_eq ?_)
        have same : word.toNat + 1 = 2 ^ w := by omega
        rw [one, same, Nat.mod_self]
        rfl
      rw [value, one, Nat.div_eq_of_lt less, Nat.zero_add, Nat.mod_eq_of_lt bounded]

/-- Addition with a carry. -/
def addCarry : Nat → List (BitVec w) → List (BitVec w) → List (BitVec w)
  | carry, first :: firsts, second :: seconds =>
    let sum := carry + first.toNat + second.toNat
    BitVec.ofNat w sum :: addCarry (sum / 2 ^ w) firsts seconds
  | _, _, _ => []

/-- Addition. -/
def add (first second : List (BitVec w)) : List (BitVec w) := addCarry 0 first second

/-- The negative of a number: the complement and one. -/
def negate (words : List (BitVec w)) : List (BitVec w) := increment (complement words)

/-- Subtraction. -/
def subtract (first second : List (BitVec w)) : List (BitVec w) := add first (negate second)

@[simp] theorem length_negate (words : List (BitVec w)) :
    (negate words).length = words.length := by
  rw [negate, length_increment, length_complement]

theorem length_addCarry
    (carry : Nat)
    (same : first.length = second.length) :
    (addCarry carry first second).length = first.length := by
  induction first generalizing carry second with
  | nil => rfl
  | cons word rest ih =>
    cases second with
    | nil => cases same
    | cons other others =>
      rw [addCarry, List.length_cons, ih _ (Nat.succ.inj same), List.length_cons]

theorem value_addCarry
    (carry : Nat)
    (same : first.length = second.length) :
    value (addCarry carry first second) =
      (carry + value first + value second) % limit w first.length := by
  induction first generalizing carry second with
  | nil => exact (Nat.mod_one _).symm
  | cons word rest ih =>
    cases second with
    | nil => cases same
    | cons other others =>
      have sum : carry + value (word :: rest) + value (other :: others) =
          carry + word.toNat + other.toNat + 2 ^ w * (value rest + value others) := by
        rw [value, value]
        ring
      rw [List.length_cons, sum, mod_limit_succ, add_mul_mod, add_mul_div, addCarry, value,
        ih _ (Nat.succ.inj same), BitVec.toNat_ofNat,
        Nat.add_assoc _ (value rest) (value others)]

theorem length_subtract
    (same : first.length = second.length) :
    (subtract first second).length = first.length :=
  length_addCarry 0 (by rw [same, length_negate])

/-- Subtraction wraps around. -/
theorem value_subtract_mod
    (same : first.length = second.length) :
    value (subtract first second) =
      (value first + (limit w first.length - value second)) % limit w first.length := by
  have secondBound := value_lt second
  have whole : limit w second.length - 1 - value second + 1 =
      limit w second.length - value second := by omega
  rw [subtract, add, value_addCarry 0 (by rw [same, length_negate]), negate, value_increment,
    value_complement, length_complement, whole, ← same, Nat.zero_add, Nat.add_mod_mod]

/-- A smaller number is subtracted without wrapping around. -/
theorem value_subtract
    (same : first.length = second.length)
    (notAbove : value second ≤ value first) :
    value (subtract first second) = value first - value second := by
  have firstBound := value_lt first
  have secondBound := value_lt second
  have sum : value first + (limit w first.length - value second) =
      value first - value second + limit w first.length := by omega
  rw [value_subtract_mod same, sum, Nat.add_mod_right, Nat.mod_eq_of_lt (by omega)]

/-- Which number is larger, told by the highest word in which they differ. -/
def compareTo : List (BitVec w) → List (BitVec w) → Int
  | first :: firsts, second :: seconds =>
    let upper := compareTo firsts seconds
    if upper ≠ 0 then upper
    else if first < second then -1
    else if second < first then 1
    else 0
  | _, _ => 0

theorem compareTo_eq
    (same : first.length = second.length) :
    compareTo first second =
      if value first < value second then -1 else if value second < value first then 1 else 0 := by
  induction first generalizing second with
  | nil =>
    cases second with
    | nil => rfl
    | cons other others => cases same
  | cons word rest ih =>
    cases second with
    | nil => cases same
    | cons other others =>
      have wordBound := word.isLt
      have otherBound := other.isLt
      have above : ∀ low high, low < 2 ^ w → ∀ first second, first < second →
          low + 2 ^ w * first < high + 2 ^ w * second := by
        intro low high small first second less
        calc low + 2 ^ w * first < 2 ^ w + 2 ^ w * first := by omega
          _ = 2 ^ w * (first + 1) := by ring
          _ ≤ 2 ^ w * second := Nat.mul_le_mul_left _ less
          _ ≤ high + 2 ^ w * second := Nat.le_add_left _ _
      rw [compareTo, ih (Nat.succ.inj same), value, value]
      rcases Nat.lt_trichotomy (value rest) (value others) with less | equal | more
      · have low := above word.toNat other.toNat wordBound _ _ less
        simp only [if_pos less, if_pos low]
        rfl
      · simp only [equal, Nat.lt_irrefl, if_false, ne_eq, not_true_eq_false, BitVec.lt_def,
          Nat.add_lt_add_iff_right]
      · have high := above other.toNat word.toNat otherBound _ _ more
        simp only [if_neg (Nat.not_lt.mpr (Nat.le_of_lt more)), if_pos more,
          if_neg (Nat.not_lt.mpr (Nat.le_of_lt high)), if_pos high]
        rfl

/-- `operator>=`. -/
theorem compareTo_nonneg_iff
    (same : first.length = second.length) :
    0 ≤ compareTo first second ↔ value second ≤ value first := by
  rw [compareTo_eq same]
  split_ifs
  · omega
  · omega
  · omega

/-- The position after the highest bit set among the lowest bits of a word. -/
def bitsBelow (word : BitVec w) : Nat → Nat
  | 0 => 0
  | position + 1 => if word.getLsbD position then position + 1 else bitsBelow word position

theorem bitsBelow_eq_size
    (word : BitVec w)
    (positions : Nat) :
    bitsBelow word positions = Nat.size (word.toNat % 2 ^ positions) := by
  induction positions with
  | zero => rw [bitsBelow, Nat.pow_zero, Nat.mod_one, Nat.size_zero]
  | succ position ih =>
    rw [bitsBelow, Nat.mod_pow_succ, ← Nat.toNat_testBit, ← BitVec.testBit_toNat]
    split_ifs with isSet
    · rw [isSet, Bool.toNat_true, Nat.mul_one]
      refine le_antisymm (Nat.lt_size.mpr (Nat.le_add_left _ _)) (Nat.size_le.mpr ?_)
      rw [Nat.pow_succ]
      omega
    · rw [Bool.eq_false_of_not_eq_true isSet, Bool.toNat_false, Nat.mul_zero, Nat.add_zero, ih]

/-- The position of the highest bit set plus one, or zero. -/
def bits : List (BitVec w) → Nat
  | [] => 0
  | word :: rest => if bits rest ≠ 0 then w + bits rest else bitsBelow word w

/-- The size of a number whose higher part is not zero. -/
theorem size_add_mul
    (below : low < 2 ^ places)
    (positive : 0 < high) :
    Nat.size (low + 2 ^ places * high) = places + Nat.size high := by
  obtain ⟨upper, size⟩ := Nat.exists_eq_succ_of_ne_zero (Nat.ne_of_gt (Nat.size_pos.mpr positive))
  refine le_antisymm (Nat.size_le.mpr ?_) ?_
  · have bounded : high < 2 ^ Nat.size high := Nat.lt_size_self _
    calc low + 2 ^ places * high < 2 ^ places + 2 ^ places * high := by omega
      _ = 2 ^ places * (high + 1) := by ring
      _ ≤ 2 ^ places * 2 ^ Nat.size high := Nat.mul_le_mul_left _ bounded
      _ = 2 ^ (places + Nat.size high) := (Nat.pow_add _ _ _).symm
  · have large : 2 ^ upper ≤ high := Nat.lt_size.mp (by omega)
    have whole : 2 ^ (places + upper) ≤ low + 2 ^ places * high := by
      rw [Nat.pow_add]
      exact (Nat.mul_le_mul_left _ large).trans (Nat.le_add_left _ _)
    have reached := Nat.lt_size.mpr whole
    omega

theorem bits_eq_size (words : List (BitVec w)) : bits words = Nat.size (value words) := by
  induction words with
  | nil => exact Nat.size_zero.symm
  | cons word rest ih =>
    have small := word.isLt
    rw [bits, ih, value]
    split_ifs with some
    · exact (size_add_mul small (Nat.size_pos.mp (Nat.pos_of_ne_zero some))).symm
    · have none : value rest = 0 := Nat.size_eq_zero.mp (not_not.mp some)
      rw [bitsBelow_eq_size, none, Nat.mul_zero, Nat.add_zero, Nat.mod_eq_of_lt small]

/-- The words shifted up by less than a word; the bits that leave one word enter the next. -/
def shiftUp (shift : Nat) : BitVec w → List (BitVec w) → List (BitVec w)
  | _, [] => []
  | previous, word :: rest =>
    (word <<< shift ||| previous >>> (w - shift)) :: shiftUp shift word rest

/-- `operator<<=`. -/
def shiftLeft (shift : Nat) (words : List (BitVec w)) : List (BitVec w) :=
  (List.replicate (shift / w) 0 ++ shiftUp (shift % w) 0 words).take words.length

/-- The words shifted down by less than a word. -/
def shiftDown (shift : Nat) : List (BitVec w) → List (BitVec w)
  | [] => []
  | word :: rest => (word >>> shift ||| rest.headD 0 <<< (w - shift)) :: shiftDown shift rest

/-- `operator>>=`. -/
def shiftRight (shift : Nat) (words : List (BitVec w)) : List (BitVec w) :=
  (shiftDown (shift % w) (words.drop (shift / w)) ++ List.replicate (shift / w) 0).take words.length

@[simp] theorem length_shiftUp
    (shift : Nat)
    (previous : BitVec w)
    (words : List (BitVec w)) :
    (shiftUp shift previous words).length = words.length := by
  induction words generalizing previous with
  | nil => rfl
  | cons word rest ih =>
    rw [shiftUp, List.length_cons, ih, List.length_cons]

@[simp] theorem length_shiftLeft (shift : Nat) (words : List (BitVec w)) :
    (shiftLeft shift words).length = words.length := by
  rw [shiftLeft, List.length_take, List.length_append, length_shiftUp]
  omega

@[simp] theorem length_shiftDown (shift : Nat) (words : List (BitVec w)) :
    (shiftDown shift words).length = words.length := by
  induction words with
  | nil => rfl
  | cons word rest ih =>
    rw [shiftDown, List.length_cons, ih, List.length_cons]

@[simp] theorem length_shiftRight (shift : Nat) (words : List (BitVec w)) :
    (shiftRight shift words).length = words.length := by
  rw [shiftRight, List.length_take, List.length_append, length_shiftDown, List.length_drop,
    List.length_replicate]
  omega

theorem getElem?_shiftUp
    (shift : Nat)
    (previous : BitVec w)
    (words : List (BitVec w))
    (index : Nat) :
    (shiftUp shift previous words)[index]? =
      words[index]?.map fun word : BitVec w =>
        word <<< shift ||| ((previous :: words)[index]?.getD 0) >>> (w - shift) := by
  induction words generalizing previous index with
  | nil => rfl
  | cons word rest ih =>
    cases index with
    | zero => rfl
    | succ index =>
      rw [shiftUp, List.getElem?_cons_succ, ih, List.getElem?_cons_succ, List.getElem?_cons_succ]

theorem getElem?_shiftDown
    (shift : Nat)
    (words : List (BitVec w))
    (index : Nat) :
    (shiftDown shift words)[index]? =
      words[index]?.map fun word : BitVec w =>
        word >>> shift ||| (words[index + 1]?.getD 0) <<< (w - shift) := by
  induction words generalizing index with
  | nil => rfl
  | cons word rest ih =>
    cases index with
    | zero =>
      cases rest with
      | nil => rfl
      | cons next others => rfl
    | succ index =>
      rw [shiftDown, List.getElem?_cons_succ, ih, List.getElem?_cons_succ, List.getElem?_cons_succ]

theorem value_zeros_append (zeros : Nat) (words : List (BitVec w)) :
    value (List.replicate zeros 0 ++ words) = 2 ^ (w * zeros) * value words := by
  induction zeros with
  | zero => rw [Nat.mul_zero, Nat.pow_zero, Nat.one_mul]; rfl
  | succ zeros ih =>
    rw [List.replicate_succ, List.cons_append, value, ih, Nat.mul_succ, Nat.pow_add]
    have zero : (0 : BitVec w).toNat = 0 := BitVec.toNat_zero
    rw [zero]
    ring

theorem value_zeros (zeros : Nat) : value (List.replicate zeros (0 : BitVec w)) = 0 := by
  have whole := value_zeros_append zeros ([] : List (BitVec w))
  rwa [List.append_nil, value, Nat.mul_zero] at whole

theorem value_take (length : Nat) (words : List (BitVec w)) :
    value (words.take length) = value words % limit w length := by
  induction length generalizing words with
  | zero => rw [List.take_zero, limit, Nat.mul_zero, Nat.pow_zero, Nat.mod_one]; rfl
  | succ length ih =>
    cases words with
    | nil => exact (Nat.zero_mod _).symm
    | cons word rest =>
      rw [List.take_succ_cons, value, ih, mod_limit_succ, value, add_mul_mod,
        add_mul_div, Nat.mod_eq_of_lt word.isLt, Nat.div_eq_of_lt word.isLt, Nat.zero_add]

theorem value_drop (count : Nat) (words : List (BitVec w)) :
    value (words.drop count) = value words / 2 ^ (w * count) := by
  induction count generalizing words with
  | zero => rw [List.drop_zero, Nat.mul_zero, Nat.pow_zero, Nat.div_one]
  | succ count ih =>
    cases words with
    | nil => exact (Nat.zero_div _).symm
    | cons word rest =>
      rw [List.drop_succ_cons, ih, value, Nat.mul_succ,
        Nat.add_comm (w * count), Nat.pow_add, ← Nat.div_div_eq_div_mul, add_mul_div, Nat.div_eq_of_lt word.isLt,
        Nat.zero_add]

/-- The upper part of one word and the lower bits out of another do not overlap. -/
theorem toNat_shiftLeft_or
    (within : shift ≤ w)
    (word previous : BitVec w) :
    (word <<< shift ||| previous >>> (w - shift)).toNat =
      word.toNat * 2 ^ shift % 2 ^ w + previous.toNat / 2 ^ (w - shift) := by
  have whole : 2 ^ w = 2 ^ shift * 2 ^ (w - shift) := by
    rw [← Nat.pow_add, Nat.add_sub_cancel' within]
  have low : previous.toNat / 2 ^ (w - shift) < 2 ^ shift := by
    rw [Nat.div_lt_iff_lt_mul (Nat.two_pow_pos _), ← whole]
    exact previous.isLt
  rw [BitVec.toNat_or, BitVec.toNat_shiftLeft, BitVec.toNat_ushiftRight, Nat.shiftLeft_eq,
    Nat.shiftRight_eq_div_pow]
  rw [whole, Nat.mul_comm word.toNat, Nat.mul_mod_mul_left]
  exact (Nat.two_pow_add_eq_or_of_lt low _).symm

theorem value_shiftUp
    (within : shift ≤ w)
    (previous : BitVec w)
    (words : List (BitVec w)) :
    value (shiftUp shift previous words) =
      (value words * 2 ^ shift + previous.toNat / 2 ^ (w - shift)) % limit w words.length := by
  induction words generalizing previous with
  | nil => exact (Nat.mod_one _).symm
  | cons word rest ih =>
    have whole : 2 ^ w = 2 ^ shift * 2 ^ (w - shift) := by
      rw [← Nat.pow_add, Nat.add_sub_cancel' within]
    have low : previous.toNat / 2 ^ (w - shift) < 2 ^ shift := by
      rw [Nat.div_lt_iff_lt_mul (Nat.two_pow_pos _), ← whole]
      exact previous.isLt
    have sum : value (word :: rest) * 2 ^ shift + previous.toNat / 2 ^ (w - shift) =
        2 ^ shift * word.toNat + previous.toNat / 2 ^ (w - shift) +
          2 ^ w * (value rest * 2 ^ shift) := by
      rw [value]
      ring
    have remainder : (2 ^ shift * word.toNat + previous.toNat / 2 ^ (w - shift)) % 2 ^ w =
        2 ^ shift * word.toNat % 2 ^ w + previous.toNat / 2 ^ (w - shift) := by
      rw [whole, Nat.mod_mul, Nat.mul_add_mod, Nat.mod_eq_of_lt low,
        Nat.mul_add_div (Nat.two_pow_pos _), Nat.div_eq_of_lt low, Nat.add_zero,
        Nat.mul_mod_mul_left, Nat.add_comm]
    have quotient : (2 ^ shift * word.toNat + previous.toNat / 2 ^ (w - shift)) / 2 ^ w =
        word.toNat / 2 ^ (w - shift) := by
      rw [whole, ← Nat.div_div_eq_div_mul, Nat.mul_add_div (Nat.two_pow_pos _),
        Nat.div_eq_of_lt low, Nat.add_zero]
    rw [List.length_cons, sum, mod_limit_succ, add_mul_mod, add_mul_div, remainder, quotient,
      shiftUp, value, ih, toNat_shiftLeft_or within, Nat.mul_comm word.toNat,
      Nat.add_comm (value rest * 2 ^ shift)]

theorem value_shiftLeft
    (positive : 0 < w)
    (shift : Nat)
    (words : List (BitVec w)) :
    value (shiftLeft shift words) = value words * 2 ^ shift % limit w words.length := by
  have within := Nat.le_of_lt (Nat.mod_lt shift positive)
  have zero : (0 : BitVec w).toNat = 0 := BitVec.toNat_zero
  have places : 2 ^ shift = 2 ^ (w * (shift / w)) * 2 ^ (shift % w) := by
    rw [← Nat.pow_add, Nat.div_add_mod]
  rw [shiftLeft, value_take, value_zeros_append, value_shiftUp within, zero, Nat.zero_div,
    Nat.add_zero, Nat.mul_mod_mod, places]
  congr 1
  ring

theorem value_shiftDown
    (within : shift ≤ w)
    (words : List (BitVec w)) :
    value (shiftDown shift words) = value words / 2 ^ shift := by
  have whole : 2 ^ w = 2 ^ shift * 2 ^ (w - shift) := by
    rw [← Nat.pow_add, Nat.add_sub_cancel' within]
  induction words with
  | nil => exact (Nat.zero_div _).symm
  | cons word rest ih =>
    have head : value rest % 2 ^ shift = (rest.headD 0).toNat % 2 ^ shift := by
      cases rest with
      | nil => rw [value, List.headD_nil, BitVec.ofNat_eq_ofNat, BitVec.toNat_zero]
      | cons next others => rw [value, List.headD_cons, whole, Nat.mul_assoc,
          Nat.add_mul_mod_self_left]
    have low : word.toNat / 2 ^ shift < 2 ^ (w - shift) := by
      rw [Nat.div_lt_iff_lt_mul (Nat.two_pow_pos _), Nat.mul_comm, ← whole]
      exact word.isLt
    have joined : (word >>> shift ||| rest.headD 0 <<< (w - shift)).toNat =
        word.toNat / 2 ^ shift + 2 ^ (w - shift) * (value rest % 2 ^ shift) := by
      rw [BitVec.toNat_or, BitVec.toNat_shiftLeft, BitVec.toNat_ushiftRight, Nat.shiftLeft_eq,
        Nat.shiftRight_eq_div_pow, head, whole, Nat.mul_comm (2 ^ shift),
        Nat.mul_comm (rest.headD 0).toNat, Nat.mul_mod_mul_left, Nat.or_comm, Nat.add_comm]
      exact (Nat.two_pow_add_eq_or_of_lt low _).symm
    have divided : value (word :: rest) / 2 ^ shift =
        word.toNat / 2 ^ shift + 2 ^ (w - shift) * value rest := by
      rw [value, whole, Nat.mul_assoc, Nat.add_mul_div_left _ _ (Nat.two_pow_pos _)]
    have split : 2 ^ (w - shift) * value rest =
        2 ^ (w - shift) * (value rest % 2 ^ shift) + 2 ^ w * (value rest / 2 ^ shift) := by
      conv_lhs => rw [← Nat.mod_add_div (value rest) (2 ^ shift)]
      rw [whole]
      ring
    rw [shiftDown, value, joined, ih, divided, split, Nat.add_assoc]

/-- `operator>>=` divides by the power of two, rounding down. -/
theorem value_shiftRight
    (positive : 0 < w)
    (shift : Nat)
    (words : List (BitVec w)) :
    value (shiftRight shift words) = value words / 2 ^ shift := by
  have within := Nat.le_of_lt (Nat.mod_lt shift positive)
  have places : 2 ^ shift = 2 ^ (w * (shift / w)) * 2 ^ (shift % w) := by
    rw [← Nat.pow_add, Nat.div_add_mod]
  have bounded : value words / 2 ^ shift < limit w words.length :=
    Nat.lt_of_le_of_lt (Nat.div_le_self _ _) (value_lt words)
  rw [shiftRight, value_take, value_append, value_zeros, Nat.mul_zero, Nat.add_zero,
    value_shiftDown within, value_drop, Nat.div_div_eq_div_mul, ← places, Nat.mod_eq_of_lt bounded]

theorem value_shiftRight_one
    (wide : 1 < w)
    (words : List (BitVec w)) :
    value (shiftRight 1 words) = value words / 2 := by
  rw [value_shiftRight (Nat.lt_trans Nat.zero_lt_one wide), Nat.pow_one]

/-! ## Division -/

/-- One bit is set. -/
def setBit (position : Nat) (words : List (BitVec w)) : List (BitVec w) :=
  words.modify (position / w) fun word => word ||| BitVec.twoPow w (position % w)

@[simp] theorem length_setBit (position : Nat) (words : List (BitVec w)) :
    (setBit position words).length = words.length :=
  List.length_modify _ _ _

theorem value_modify_setBit
    (within : place < w)
    (index : Nat)
    (words : List (BitVec w))
    (inside : index < words.length)
    (clear : (value words).testBit (w * index + place) = false) :
    value (words.modify index fun word => word ||| BitVec.twoPow w place) =
      value words + 2 ^ (w * index + place) := by
  induction words generalizing index with
  | nil => cases inside
  | cons word rest ih =>
    have bit : ∀ position, (value (word :: rest)).testBit position =
        if position < w then word.toNat.testBit position
        else (value rest).testBit (position - w) := by
      intro position
      rw [value, Nat.add_comm]
      exact Nat.testBit_two_pow_mul_add _ word.isLt position
    cases index with
    | zero =>
      rw [bit, Nat.mul_zero, Nat.zero_add, if_pos within] at clear
      have disjoint : word &&& BitVec.twoPow w place = 0#w := by
        rw [BitVec.and_twoPow, ← BitVec.testBit_toNat, clear, if_neg Bool.false_ne_true]
      rw [List.modify_zero_cons, value, value, Nat.mul_zero, Nat.zero_add,
        ← BitVec.add_eq_or_of_and_eq_zero _ _ disjoint,
        BitVec.toNat_add_of_and_eq_zero disjoint, BitVec.toNat_twoPow_of_lt within]
      ring
    | succ index =>
      have later : ¬ w * (index + 1) + place < w := by
        rw [Nat.mul_succ]
        omega
      have moved : w * (index + 1) + place - w = w * index + place := by
        rw [Nat.mul_succ]
        omega
      have power : 2 ^ (w * (index + 1) + place) = 2 ^ w * 2 ^ (w * index + place) := by
        rw [← Nat.pow_add]
        congr 1
        ring
      rw [bit, if_neg later, moved] at clear
      rw [List.modify_succ_cons, value,
        ih index (Nat.lt_of_succ_lt_succ inside) clear, value, power]
      ring

/-- Setting a bit that is clear adds its power of two. -/
theorem value_setBit
    (positive : 0 < w)
    {words : List (BitVec w)}
    (inside : position < w * words.length)
    (clear : (value words).testBit position = false) :
    value (setBit position words) = value words + 2 ^ position := by
  have place := Nat.div_add_mod position w
  have index : position / w < words.length := by
    rw [Nat.div_lt_iff_lt_mul positive, Nat.mul_comm]
    exact inside
  have added := value_modify_setBit (Nat.mod_lt position positive) (position / w) words index
    (by rw [place]; exact clear)
  rwa [place] at added

/-- The rounds of the division: the divisor is subtracted where it fits, and a bit of the quotient
is set; then the divisor is shifted back by one. -/
def divideRounds : Nat → List (BitVec w) → List (BitVec w) → List (BitVec w) → List (BitVec w)
  | 0, _, _, quotient => quotient
  | shift + 1, num, div, quotient =>
    if 0 ≤ compareTo num div then
      divideRounds shift (subtract num div) (shiftRight 1 div) (setBit shift quotient)
    else divideRounds shift num (shiftRight 1 div) quotient

/-- `operator/=`, which fails when the divisor is zero. -/
def divide (num div : List (BitVec w)) : Option (List (BitVec w)) :=
  let quotient := List.replicate num.length 0
  if bits div = 0 then none
  else if bits num < bits div then some quotient
  else
    let shift := bits num - bits div
    some (divideRounds (shift + 1) num (shiftLeft shift div) quotient)

/-- Before each round the divisor is aligned and the quotient's lower bits are clear. -/
structure Aligned
    (divisor rounds : Nat)
    (num div quotient : List (BitVec w)) :
    Prop where
  lengths : num.length = div.length
  inside : rounds ≤ w * quotient.length
  shifted : ∀ shift, rounds = shift + 1 → value div = divisor * 2 ^ shift
  bounded : value num < divisor * 2 ^ rounds
  clear : 2 ^ rounds ∣ value quotient

theorem testBit_of_dvd (multiple : 2 ^ (position + 1) ∣ number) :
    number.testBit position = false := by
  obtain ⟨rest, rfl⟩ := multiple
  rw [Nat.testBit_two_pow_mul, decide_eq_false (by omega), Bool.false_and]

theorem Aligned.next
    (wide : 1 < w)
    (aligned : Aligned divisor (shift + 1) num div quotient)
    {next following : List (BitVec w)}
    (same : next.length = num.length)
    (long : following.length = quotient.length)
    (below : value next < divisor * 2 ^ shift)
    (free : 2 ^ shift ∣ value following) :
    Aligned divisor shift next (shiftRight 1 div) following where
  lengths := by rw [same, length_shiftRight, aligned.lengths]
  inside := by
    have inside := aligned.inside
    rw [long]
    omega
  shifted := by
    rintro before rfl
    rw [value_shiftRight_one wide, aligned.shifted _ rfl, Nat.pow_succ, ← Nat.mul_assoc,
      Nat.mul_div_cancel _ Nat.two_pos]
  bounded := below
  clear := free

/-- The rounds put the quotient of the rest of the number into the lower bits. -/
theorem value_divideRounds
    (wide : 1 < w)
    {divisor : Nat}
    (positive : 0 < divisor)
    (rounds : Nat)
    (num div quotient : List (BitVec w))
    (aligned : Aligned divisor rounds num div quotient) :
    (divideRounds rounds num div quotient).length = quotient.length ∧
      value (divideRounds rounds num div quotient) = value quotient + value num / divisor := by
  induction rounds generalizing num div quotient with
  | zero =>
    have less := aligned.bounded
    rw [Nat.pow_zero, Nat.mul_one] at less
    exact ⟨rfl, by rw [divideRounds, Nat.div_eq_of_lt less, Nat.add_zero]⟩
  | succ shift ih =>
    have current := aligned.shifted shift rfl
    have bounded := aligned.bounded
    have free := (Nat.pow_dvd_pow 2 (Nat.le_succ shift)).trans aligned.clear
    rw [Nat.pow_succ, ← Nat.mul_assoc] at bounded
    rw [divideRounds]
    split_ifs with fits
    · rw [compareTo_nonneg_iff aligned.lengths, current] at fits
      have rest := value_subtract aligned.lengths (by rw [current]; exact fits)
      have set := value_setBit (Nat.lt_trans Nat.zero_lt_one wide) aligned.inside
        (testBit_of_dvd aligned.clear)
      obtain ⟨length, result⟩ := ih _ _ _
        (aligned.next wide (length_subtract aligned.lengths) (length_setBit _ _)
          (by rw [rest, current]; omega)
          (by rw [set]; exact Nat.dvd_add free (Nat.dvd_refl _)))
      refine ⟨length.trans (length_setBit _ _), ?_⟩
      rw [result, rest, set, current, Nat.sub_mul_div, Nat.add_assoc, Nat.add_sub_cancel']
      rw [Nat.le_div_iff_mul_le positive, Nat.mul_comm]
      exact fits
    · rw [compareTo_nonneg_iff aligned.lengths, current, Nat.not_le] at fits
      exact ih _ _ _ (aligned.next wide rfl rfl fits free)

/-- Division by shifting and subtracting gives the quotient. -/
theorem value_divide
    (wide : 1 < w)
    {num div : List (BitVec w)}
    (same : num.length = div.length)
    (positive : 0 < value div) :
    ∃ quotient, divide num div = some quotient ∧
      quotient.length = num.length ∧ value quotient = value num / value div := by
  have divBits := bits_eq_size div
  have numBits := bits_eq_size num
  have some : bits div ≠ 0 := by
    rw [divBits]
    exact Nat.ne_of_gt (Nat.size_pos.mpr positive)
  have numBound : value num < 2 ^ bits num := by
    rw [numBits]
    exact Nat.lt_size_self _
  rw [divide, if_neg some]
  split_ifs with larger
  · have less : value num < value div := by
      obtain ⟨upper, size⟩ := Nat.exists_eq_succ_of_ne_zero some
      have large : 2 ^ upper ≤ value div := Nat.lt_size.mp (by rw [← divBits]; omega)
      exact (numBound.trans_le (Nat.pow_le_pow_right Nat.two_pos (by omega))).trans_le large
    exact ⟨_, rfl, List.length_replicate, by rw [value_zeros, Nat.div_eq_of_lt less]⟩
  · have whole : bits num ≤ w * num.length := by
      rw [numBits, Nat.size_le]
      exact value_lt num
    have shifted : value (shiftLeft (bits num - bits div) div) =
        value div * 2 ^ (bits num - bits div) := by
      have divBound : value div < 2 ^ bits div := by
        rw [divBits]
        exact Nat.lt_size_self _
      rw [value_shiftLeft (Nat.lt_trans Nat.zero_lt_one wide), ← same]
      refine Nat.mod_eq_of_lt ?_
      calc value div * 2 ^ (bits num - bits div)
          < 2 ^ bits div * 2 ^ (bits num - bits div) :=
            Nat.mul_lt_mul_of_pos_right divBound (Nat.two_pow_pos _)
        _ = 2 ^ bits num := by rw [← Nat.pow_add, Nat.add_sub_cancel' (Nat.not_lt.mp larger)]
        _ ≤ 2 ^ (w * num.length) := Nat.pow_le_pow_right Nat.two_pos whole
    have below : value num < value div * 2 ^ (bits num - bits div + 1) := by
      obtain ⟨upper, size⟩ := Nat.exists_eq_succ_of_ne_zero some
      have large : 2 ^ upper ≤ value div := Nat.lt_size.mp (by rw [← divBits]; omega)
      calc value num < 2 ^ bits num := numBound
        _ = 2 ^ upper * 2 ^ (bits num - bits div + 1) := by
            rw [← Nat.pow_add]
            congr 1
            omega
        _ ≤ value div * 2 ^ (bits num - bits div + 1) := Nat.mul_le_mul_right _ large
    have aligned : Aligned (value div) (bits num - bits div + 1) num
        (shiftLeft (bits num - bits div) div) (List.replicate num.length 0) :=
      { lengths := by rw [length_shiftLeft, same]
        inside := by
          rw [List.length_replicate]
          omega
        shifted := by
          intro shift rounds
          rw [← Nat.succ.inj rounds]
          exact shifted
        bounded := below
        clear := by
          rw [value_zeros]
          exact Nat.dvd_zero _ }
    obtain ⟨length, result⟩ := value_divideRounds wide positive _ _ _ _ aligned
    rw [value_zeros, Nat.zero_add] at result
    exact ⟨_, rfl, length.trans List.length_replicate, result⟩

end MultiWord

/-!
## Leading bits

The lowest bits of a number are cleared, and how many depends on its length only.  As long as the
highest bit stays, the order of numbers is kept.
-/

namespace LeadingBits

variable {cleared : Nat → Nat}

/-- The number with so many of its lowest bits cleared as go by its length. -/
def leading (cleared : Nat → Nat) (number : Nat) : Nat :=
  number / 2 ^ cleared number.size * 2 ^ cleared number.size

theorem leading_le (cleared : Nat → Nat) (number : Nat) : leading cleared number ≤ number :=
  Nat.div_mul_le_self number _

section

variable (keeps : ∀ size, 0 < size → cleared size < size)
include keeps

/-- The highest bit stays. -/
theorem le_leading
    (positive : 0 < number) :
    2 ^ (number.size - 1) ≤ leading cleared number := by
  have long : 0 < number.size := Nat.size_pos.mpr positive
  have fewer := keeps number.size long
  have highest : 2 ^ (number.size - 1) ≤ number := Nat.lt_size.mp (by omega)
  have split : number.size - 1 = (number.size - 1 - cleared number.size) +
      cleared number.size := by omega
  have divided : 2 ^ (number.size - 1 - cleared number.size) ≤
      number / 2 ^ cleared number.size := by
    rw [Nat.le_div_iff_mul_le (Nat.two_pow_pos _), ← Nat.pow_add, ← split]
    exact highest
  calc 2 ^ (number.size - 1)
      = 2 ^ (number.size - 1 - cleared number.size) * 2 ^ cleared number.size := by
        rw [← Nat.pow_add, ← split]
    _ ≤ number / 2 ^ cleared number.size * 2 ^ cleared number.size :=
        Nat.mul_le_mul_right _ divided

theorem leading_pos
    (positive : 0 < number) :
    0 < leading cleared number :=
  Nat.lt_of_lt_of_le (Nat.two_pow_pos _) (le_leading keeps positive)

theorem size_leading
    (number : Nat) :
    (leading cleared number).size = number.size := by
  rcases Nat.eq_zero_or_pos number with rfl | positive
  · rw [leading, Nat.zero_div, Nat.zero_mul]
  · have long : 0 < number.size := Nat.size_pos.mpr positive
    refine Nat.le_antisymm (Nat.size_le_size (leading_le cleared number)) ?_
    have highest := Nat.lt_size.mpr (le_leading keeps positive)
    omega

theorem leading_mono
    (ordered : number ≤ other) :
    leading cleared number ≤ leading cleared other := by
  rcases Nat.lt_or_ge number.size other.size with shorter | longer
  · have positive : 0 < other := Nat.size_pos.mp (by omega)
    calc leading cleared number ≤ number := leading_le cleared number
      _ ≤ 2 ^ number.size := Nat.le_of_lt (Nat.lt_size_self number)
      _ ≤ 2 ^ (other.size - 1) := Nat.pow_le_pow_right (by omega) (by omega)
      _ ≤ leading cleared other := le_leading keeps positive
  · have same : number.size = other.size := Nat.le_antisymm (Nat.size_le_size ordered) longer
    unfold leading
    rw [same]
    exact Nat.mul_le_mul_right _ (Nat.div_le_div_right ordered)

end

end LeadingBits

/-!
## Products that wrap around

A product is taken modulo a number and compared.  The comparisons with it come out as those
with the product itself, and a larger factor never gives less, exactly as long as the product
stays below the modulus.
-/

namespace WrappedProducts

variable {weight : Nat}

/-- All numbers are compared as with the product itself exactly if the product does not wrap
around. -/
theorem forall_lt_iff_lt_iff (positive : 0 < modulus) :
    (∀ number < modulus, number < weight * factor % modulus ↔ number < weight * factor) ↔
      weight * factor < modulus := by
  constructor
  · intro exact
    by_contra wraps
    have below := Nat.mod_lt (weight * factor) positive
    have less := (exact _ below).mpr (by omega)
    exact absurd less (Nat.lt_irrefl _)
  · intro fits number _
    rw [Nat.mod_eq_of_lt fits]

/-- Products with a factor grow with the weight up to some weight exactly if they do not wrap
around until there: where they wrap around for the first time they drop. -/
theorem forall_mod_le_mod_iff (small : factor < modulus) :
    (∀ first second, first ≤ second → second ≤ weight →
        first * factor % modulus ≤ second * factor % modulus) ↔
      weight * factor < modulus := by
  constructor
  · intro monotone
    by_contra wraps
    have exists_wrapped : ∃ other, modulus ≤ other * factor := ⟨weight, by omega⟩
    obtain ⟨least, wrapped, below⟩ : ∃ least, modulus ≤ least * factor ∧
        ∀ other < least, other * factor < modulus := by
      classical
      refine ⟨Nat.find exists_wrapped, Nat.find_spec exists_wrapped, ?_⟩
      intro other before
      exact Nat.lt_of_not_le (Nat.find_min exists_wrapped before)
    have upTo : least ≤ weight := by
      by_contra beyond
      exact absurd (below weight (by omega)) wraps
    cases least with
    | zero => omega
    | succ before =>
      have fits := below before (Nat.lt_succ_self before)
      have step : (before + 1) * factor = before * factor + factor := Nat.succ_mul before factor
      have drops : (before + 1) * factor % modulus = before * factor + factor - modulus := by
        rw [Nat.mod_eq_sub_mod wrapped, Nat.mod_eq_of_lt (by omega)]
        omega
      have grows := monotone before (before + 1) (Nat.le_succ before) upTo
      rw [drops, Nat.mod_eq_of_lt fits] at grows
      omega
  · intro fits first second ordered upTo
    have secondFits := Nat.mul_le_mul_right factor upTo
    have firstFits := Nat.mul_le_mul_right factor ordered
    rw [Nat.mod_eq_of_lt (by omega), Nat.mod_eq_of_lt (by omega)]
    exact firstFits

end WrappedProducts
