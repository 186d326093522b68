import ColossusCoin.Library.MultiWord
import Mathlib.Data.Int.ModEq

/-!
# The arithmetic of `base_uint`

The operators of `base_uint` as their loops over the words `pn` compute them, and that they agree
with the arithmetic of integers modulo the size.
-/

namespace ColossusCoin

open MultiWord

/-- `base_uint`: its words, the lowest first. -/
@[ext] structure BaseUint (WIDTH : Nat) where
  pn : Vector (BitVec 32) WIDTH
deriving DecidableEq

/-- The words of a `uint256`. -/
abbrev Words256 := BaseUint 8

namespace BaseUint

/-- The number that the words hold. -/
def toNat (a : BaseUint WIDTH) : Nat := value a.pn.toList

/-- The number that the lowest words hold. -/
def low (pn : Vector (BitVec 32) WIDTH) (count : Nat) : Nat := value (pn.toList.take count)

theorem low_zero (pn : Vector (BitVec 32) WIDTH) : low pn 0 = 0 := rfl

theorem low_all (a : BaseUint WIDTH) : low a.pn WIDTH = a.toNat := by
  rw [low, toNat, List.take_of_length_le (by rw [Vector.length_toList])]

theorem toNat_lt (a : BaseUint WIDTH) : a.toNat < 2 ^ (32 * WIDTH) := by
  have bounded := value_lt a.pn.toList
  rwa [Vector.length_toList] at bounded

theorem low_eq_mod (a : BaseUint WIDTH) (count : Nat) :
    low a.pn count = a.toNat % 2 ^ (32 * count) :=
  value_take count a.pn.toList

variable (pn : Vector (BitVec 32) WIDTH)

theorem low_succ
    (inside : count < WIDTH) :
    low pn (count + 1) = low pn count + 2 ^ (32 * count) * pn[count].toNat := by
  have within : count < pn.toList.length := by rwa [Vector.length_toList]
  have prefixLength : (pn.toList.take count).length = count := by
    rw [List.length_take, Nat.min_eq_left (Nat.le_of_lt within)]
  rw [low, List.take_add_one, List.getElem?_eq_getElem within, Option.toList_some, value_append,
    prefixLength, Vector.getElem_toList, value, value, Nat.mul_zero, Nat.add_zero]
  rfl

theorem low_set
    (inside : index < WIDTH)
    (above : count ≤ index)
    (word : BitVec 32) :
    low (pn.set index word) count = low pn count := by
  rw [low, low, Vector.toList_set, List.take_set_of_le above]

/-! ## Loops with a carry -/

/-- The loop over the words from `first` on: of `carry + term`, the low half is stored and the high
half is carried on. -/
def carryLoop
    (term : Fin WIDTH → BitVec 32 → BitVec 64)
    (first : Nat)
    (pn : Vector (BitVec 32) WIDTH) :
    (rounds : Nat) → first + rounds ≤ WIDTH → Vector (BitVec 32) WIDTH × BitVec 64
  | 0, _ => (pn, 0)
  | i + 1, inside =>
    let (pn, carry) := carryLoop term first pn i (by omega)
    let n := carry + term ⟨i, by omega⟩ pn[first + i]
    (pn.set (first + i) (n.setWidth 32), n >>> 32)

/-- `operator+=`. -/
def addAssign (a b : BaseUint WIDTH) : BaseUint WIDTH :=
  ⟨(carryLoop (fun i word => word.setWidth 64 + (b.pn[i]).setWidth 64) 0 a.pn WIDTH
    (by omega)).1⟩

/-- `operator*=` with a word. -/
def mulAssign32 (a : BaseUint WIDTH) (b32 : BitVec 32) : BaseUint WIDTH :=
  ⟨(carryLoop (fun _ word => b32.setWidth 64 * word.setWidth 64) 0 a.pn WIDTH (by omega)).1⟩

/-- The outer loop of `operator*=`: the rows of the product are added to zero. -/
def mulRows (a b : BaseUint WIDTH) : (rows : Nat) → rows ≤ WIDTH → Vector (BitVec 32) WIDTH
  | 0, _ => Vector.replicate WIDTH 0
  | j + 1, inside =>
    (carryLoop (fun i word => word.setWidth 64 +
        (a.pn[j]).setWidth 64 * (b.pn[i]).setWidth 64)
      j (mulRows a b j (by omega)) (WIDTH - j) (by omega)).1

/-- `operator*=`, where `b` is not the object that is multiplied: that object is cleared before `b`
is read.  `operator*` multiplies a copy. -/
def mulAssign (a b : BaseUint WIDTH) : BaseUint WIDTH := ⟨mulRows a b WIDTH (Nat.le_refl _)⟩

/-- The state of the loop after so many rounds: what is stored and carried is the sum so far, and
the words above are untouched. -/
structure Carried
    (pn : Vector (BitVec 32) WIDTH)
    (count total : Nat)
    (state : Vector (BitVec 32) WIDTH × BitVec 64) :
    Prop where
  small : state.2.toNat < 2 ^ 32
  sum : low state.1 count + 2 ^ (32 * count) * state.2.toNat = total
  above : ∀ index, (inside : index < WIDTH) → count ≤ index → state.1[index] = pn[index]

theorem Carried.step
    {pn : Vector (BitVec 32) WIDTH}
    {count total : Nat}
    {state : Vector (BitVec 32) WIDTH × BitVec 64}
    (carried : Carried pn count total state)
    (inside : count < WIDTH)
    {term : BitVec 64}
    (bounded : term.toNat + 2 ^ 32 ≤ 2 ^ 64) :
    Carried pn (count + 1) (total + 2 ^ (32 * count) * term.toNat)
      (state.1.set count ((state.2 + term).setWidth 32), (state.2 + term) >>> 32) := by
  have small := carried.small
  have sum : (state.2 + term).toNat = state.2.toNat + term.toNat := by
    rw [BitVec.toNat_add, Nat.mod_eq_of_lt (by omega)]
  have high : ((state.2 + term) >>> 32).toNat = (state.2.toNat + term.toNat) / 2 ^ 32 := by
    rw [BitVec.toNat_ushiftRight, Nat.shiftRight_eq_div_pow, sum]
  have low : ((state.2 + term).setWidth 32).toNat = (state.2.toNat + term.toNat) % 2 ^ 32 := by
    rw [BitVec.toNat_setWidth, sum]
  refine ⟨?_, ?_, ?_⟩
  · rw [high, Nat.div_lt_iff_lt_mul (Nat.two_pow_pos 32)]
    omega
  · have place : 2 ^ (32 * (count + 1)) = 2 ^ (32 * count) * 2 ^ 32 := by
      rw [Nat.mul_succ, Nat.pow_add]
    rw [low_succ _ inside, low_set _ inside (Nat.le_refl _), Vector.getElem_set_self, low, high,
      place, ← carried.sum, Nat.add_assoc, Nat.mul_assoc, ← Nat.mul_add, Nat.mod_add_div,
      Nat.mul_add, Nat.add_assoc]
  · intro index within later
    rw [Vector.getElem_set_ne _ _ (by omega)]
    exact carried.above index within (by omega)

theorem carried_carryLoop
    (bounded : ∀ i word, (term i word).toNat + 2 ^ 32 ≤ 2 ^ 64)
    {first : Nat}
    (pn : Vector (BitVec 32) WIDTH)
    (total : Nat → Nat)
    (start : total 0 = low pn first)
    (next : ∀ i, (inside : first + i < WIDTH) →
      total (i + 1) = total i + 2 ^ (32 * (first + i)) * (term ⟨i, by omega⟩ pn[first + i]).toNat)
    (rounds : Nat)
    (inside : first + rounds ≤ WIDTH) :
    Carried pn (first + rounds) (total rounds) (carryLoop term first pn rounds inside) := by
  induction rounds with
  | zero =>
    refine ⟨Nat.two_pow_pos 32, ?_, fun _ _ _ => rfl⟩
    rw [start]
    rfl
  | succ i ih =>
    have carried := ih (by omega)
    have same := carried.above (first + i) (by omega) (Nat.le_refl _)
    rw [next i (by omega), carryLoop]
    dsimp only
    rw [same]
    exact carried.step (by omega) (bounded _ _)

/-- What is stored after the last word is the sum modulo the size. -/
theorem toNat_carryLoop
    (bounded : ∀ i word, (term i word).toNat + 2 ^ 32 ≤ 2 ^ 64)
    (pn : Vector (BitVec 32) WIDTH)
    (total : Nat → Nat)
    (start : total 0 = low pn first)
    (next : ∀ i, (inside : first + i < WIDTH) →
      total (i + 1) = total i + 2 ^ (32 * (first + i)) * (term ⟨i, by omega⟩ pn[first + i]).toNat)
    (whole : first + rounds = WIDTH)
    (inside : first + rounds ≤ WIDTH) :
    toNat ⟨(carryLoop term first pn rounds inside).1⟩ = total rounds % 2 ^ (32 * WIDTH) := by
  have carried := carried_carryLoop bounded pn total start next rounds inside
  generalize carryLoop term first pn rounds inside = state at carried ⊢
  have sum := carried.sum
  rw [whole] at sum
  have stored := low_all ⟨state.1⟩
  rw [← sum, stored, Nat.add_mul_mod_self_left, Nat.mod_eq_of_lt (toNat_lt _)]

theorem toNat_addAssign (a b : BaseUint WIDTH) :
    (addAssign a b).toNat = (a.toNat + b.toNat) % 2 ^ (32 * WIDTH) := by
  have sum : ∀ i : Fin WIDTH, ∀ word : BitVec 32,
      (word.setWidth 64 + (b.pn[i]).setWidth 64).toNat = word.toNat + (b.pn[i]).toNat := by
    intro i word
    have first := word.isLt
    have second := (b.pn[i]).isLt
    rw [BitVec.toNat_add, BitVec.toNat_setWidth_of_le (by decide),
      BitVec.toNat_setWidth_of_le (by decide), Nat.mod_eq_of_lt (by omega)]
  have bounded : ∀ i : Fin WIDTH, ∀ word : BitVec 32,
      (word.setWidth 64 + (b.pn[i]).setWidth 64).toNat + 2 ^ 32 ≤ 2 ^ 64 := by
    intro i word
    rw [sum]
    omega
  rw [addAssign, toNat_carryLoop bounded a.pn fun i => low a.pn i + low b.pn i, low_all, low_all]
  · rfl
  · intro i inside
    rw [Nat.zero_add] at inside
    rw [sum, low_succ a.pn inside, low_succ b.pn inside]
    simp only [Nat.zero_add, Fin.getElem_fin]
    ring
  · exact Nat.zero_add WIDTH

theorem toNat_product (word first second : BitVec 32) :
    (word.setWidth 64 + first.setWidth 64 * second.setWidth 64).toNat =
        word.toNat + first.toNat * second.toNat ∧
      word.toNat + first.toNat * second.toNat + 2 ^ 32 ≤ 2 ^ 64 := by
  have product : first.toNat * second.toNat ≤ (2 ^ 32 - 1) * (2 ^ 32 - 1) :=
    Nat.mul_le_mul (Nat.le_sub_one_of_lt first.isLt) (Nat.le_sub_one_of_lt second.isLt)
  refine ⟨?_, by omega⟩
  rw [BitVec.toNat_add, BitVec.toNat_mul, BitVec.toNat_setWidth_of_le (by decide),
    BitVec.toNat_setWidth_of_le (by decide), BitVec.toNat_setWidth_of_le (by decide),
    Nat.add_mod_mod, Nat.mod_eq_of_lt (by omega)]

theorem toNat_mulAssign32 (a : BaseUint WIDTH) (b32 : BitVec 32) :
    (mulAssign32 a b32).toNat = a.toNat * b32.toNat % 2 ^ (32 * WIDTH) := by
  have product : ∀ word : BitVec 32,
      (b32.setWidth 64 * word.setWidth 64).toNat = b32.toNat * word.toNat ∧
        b32.toNat * word.toNat + 2 ^ 32 ≤ 2 ^ 64 := by
    intro word
    obtain ⟨exact, bounded⟩ := toNat_product 0#32 b32 word
    rw [BitVec.toNat_zero, Nat.zero_add] at exact bounded
    rw [← exact]
    exact ⟨by rw [BitVec.setWidth_zero, BitVec.zero_add], by rw [exact]; exact bounded⟩
  have bounded : ∀ _ : Fin WIDTH, ∀ word : BitVec 32,
      (b32.setWidth 64 * word.setWidth 64).toNat + 2 ^ 32 ≤ 2 ^ 64 := by
    intro _ word
    rw [(product word).1]
    exact (product word).2
  rw [mulAssign32, toNat_carryLoop bounded a.pn fun i => b32.toNat * low a.pn i, low_all,
    Nat.mul_comm]
  · rfl
  · intro i inside
    rw [Nat.zero_add] at inside
    rw [(product _).1, low_succ a.pn inside]
    ring
  · exact Nat.zero_add WIDTH

/-- The rows give the product with the lowest words. -/
theorem toNat_mulRows
    (a b : BaseUint WIDTH)
    (rows : Nat)
    (inside : rows ≤ WIDTH) :
    toNat ⟨mulRows a b rows inside⟩ = low a.pn rows * b.toNat % 2 ^ (32 * WIDTH) := by
  induction rows with
  | zero =>
    rw [low_zero, Nat.zero_mul, Nat.zero_mod, mulRows, toNat, Vector.toList_replicate]
    exact value_zeros WIDTH
  | succ j ih =>
    have row := ih (by omega)
    have bounded : ∀ i : Fin WIDTH, ∀ word : BitVec 32,
        (word.setWidth 64 + (a.pn[j]).setWidth 64 * (b.pn[i]).setWidth 64).toNat + 2 ^ 32 ≤
          2 ^ 64 := by
      intro i word
      obtain ⟨exact, bounded⟩ := toNat_product word a.pn[j] b.pn[i]
      rw [exact]
      exact bounded
    have places : 2 ^ (32 * WIDTH) = 2 ^ (32 * j) * 2 ^ (32 * (WIDTH - j)) := by
      rw [← Nat.pow_add]
      congr 1
      omega
    rw [mulRows, toNat_carryLoop bounded _ fun i =>
      low (mulRows a b j (by omega)) (j + i) + 2 ^ (32 * j) * ((a.pn[j]).toNat * low b.pn i)]
    · have all := low_all ⟨mulRows a b j (by omega)⟩
      have whole : j + (WIDTH - j) = WIDTH := by omega
      -- the words of `b` that the row leaves out would be shifted out
      have shifted : 2 ^ (32 * j) * ((a.pn[j]).toNat * low b.pn (WIDTH - j)) ≡
          2 ^ (32 * j) * ((a.pn[j]).toNat * b.toNat) [MOD 2 ^ (32 * WIDTH)] := by
        rw [places, low_eq_mod]
        exact ((Nat.mod_modEq _ _).mul_left _).mul_left' _
      have previous : toNat ⟨mulRows a b j (by omega)⟩ ≡ low a.pn j * b.toNat
          [MOD 2 ^ (32 * WIDTH)] := by
        rw [row]
        exact Nat.mod_modEq _ _
      rw [whole, all, low_succ a.pn (by omega), Nat.add_mul,
        Nat.mul_assoc (2 ^ (32 * j)) _ b.toNat]
      exact previous.add shifted
    · rw [Nat.add_zero, low_zero, Nat.mul_zero, Nat.mul_zero, Nat.add_zero]
    · intro i within
      rw [(toNat_product _ _ _).1, ← Nat.add_assoc j, low_succ _ within,
        low_succ b.pn (by omega : i < WIDTH), Nat.mul_add, Nat.pow_add]
      simp only [Fin.getElem_fin]
      ring
    · omega

theorem toNat_mulAssign (a b : BaseUint WIDTH) :
    (mulAssign a b).toNat = a.toNat * b.toNat % 2 ^ (32 * WIDTH) := by
  rw [mulAssign, toNat_mulRows, low_all]

/-- The loop of `++` from the word `i` on, which `later` words follow: the next word is incremented
too when zero comes out. -/
def incrementFrom :
    (later i : Nat) → i + later + 1 = WIDTH → Vector (BitVec 32) WIDTH → Vector (BitVec 32) WIDTH
  | 0, i, inside, pn => pn.set i (pn[i] + 1)
  | later + 1, i, inside, pn =>
    if pn[i] + 1 = 0 then incrementFrom later (i + 1) (by omega) (pn.set i (pn[i] + 1))
    else pn.set i (pn[i] + 1)

/-- `operator++`. -/
def increment [NeZero WIDTH] (a : BaseUint WIDTH) : BaseUint WIDTH :=
  ⟨incrementFrom (WIDTH - 1) 0 (by have := NeZero.pos WIDTH; omega) a.pn⟩

/-- `operator~`. -/
def complement (a : BaseUint WIDTH) : BaseUint WIDTH := ⟨a.pn.map fun word => ~~~word⟩

/-- `operator-` of one number. -/
def negate [NeZero WIDTH] (a : BaseUint WIDTH) : BaseUint WIDTH := increment (complement a)

/-- `operator-=`. -/
def subAssign [NeZero WIDTH] (a b : BaseUint WIDTH) : BaseUint WIDTH := addAssign a (negate b)

theorem toNat_set
    (inside : index < WIDTH)
    (word : BitVec 32) :
    toNat ⟨pn.set index word⟩ + 2 ^ (32 * index) * (pn[index]).toNat =
      toNat ⟨pn⟩ + 2 ^ (32 * index) * word.toNat := by
  have replaced := value_set pn.toList (by rwa [Vector.length_toList]) word
  rw [Vector.getElem_toList] at replaced
  rw [toNat, toNat, Vector.toList_set]
  exact replaced

/-- An incremented word leaves zero and a carry, or it does not wrap around. -/
theorem toNat_set_succ
    (inside : i < WIDTH) :
    (pn[i] + 1 = 0 →
      toNat ⟨pn.set i (pn[i] + 1)⟩ + 2 ^ (32 * (i + 1)) = toNat ⟨pn⟩ + 2 ^ (32 * i)) ∧
      (pn[i] + 1 ≠ 0 → toNat ⟨pn.set i (pn[i] + 1)⟩ = toNat ⟨pn⟩ + 2 ^ (32 * i)) := by
  have replaced := toNat_set pn inside (pn[i] + 1)
  have one : (pn[i] + 1).toNat = ((pn[i]).toNat + 1) % 2 ^ 32 := BitVec.toNat_add _ _
  constructor
  · intro zero
    have place : 2 ^ (32 * (i + 1)) = 2 ^ (32 * i) * 2 ^ 32 := by rw [Nat.mul_succ, Nat.pow_add]
    have none : (pn[i] + 1).toNat = 0 := by rw [zero]; rfl
    have full : (pn[i]).toNat + 1 = 2 ^ 32 := by omega
    rw [none, Nat.mul_zero, Nat.add_zero] at replaced
    rw [place, ← full, Nat.mul_succ, ← Nat.add_assoc, replaced]
  · intro some
    have notZero : (pn[i] + 1).toNat ≠ 0 := fun none => some (BitVec.eq_of_toNat_eq none)
    have more : (pn[i] + 1).toNat = (pn[i]).toNat + 1 := by omega
    rw [more, Nat.mul_succ] at replaced
    omega

theorem toNat_incrementFrom
    (later i : Nat)
    (inside : i + later + 1 = WIDTH)
    (pn : Vector (BitVec 32) WIDTH) :
    toNat ⟨incrementFrom later i inside pn⟩ = (toNat ⟨pn⟩ + 2 ^ (32 * i)) % 2 ^ (32 * WIDTH) := by
  have stays : ∀ i, (within : i < WIDTH) → ∀ pn : Vector (BitVec 32) WIDTH, pn[i] + 1 ≠ 0 →
      toNat ⟨pn.set i (pn[i] + 1)⟩ = (toNat ⟨pn⟩ + 2 ^ (32 * i)) % 2 ^ (32 * WIDTH) := by
    intro i within pn some
    rw [← (toNat_set_succ pn within).2 some, Nat.mod_eq_of_lt (toNat_lt _)]
  induction later generalizing i pn with
  | zero =>
    have last : 32 * (i + 1) = 32 * WIDTH := by omega
    rw [incrementFrom]
    by_cases zero : pn[i] + 1 = 0
    · rw [← (toNat_set_succ pn (by omega)).1 zero, last, Nat.add_mod_right,
        Nat.mod_eq_of_lt (toNat_lt _)]
    · exact stays i (by omega) pn zero
  | succ later ih =>
    rw [incrementFrom]
    split_ifs with zero
    · rw [ih, (toNat_set_succ pn (by omega)).1 zero]
    · exact stays i (by omega) pn zero

theorem toNat_increment [NeZero WIDTH] (a : BaseUint WIDTH) :
    (increment a).toNat = (a.toNat + 1) % 2 ^ (32 * WIDTH) := by
  rw [increment, toNat_incrementFrom]
  rfl

theorem toNat_complement (a : BaseUint WIDTH) :
    (complement a).toNat = 2 ^ (32 * WIDTH) - 1 - a.toNat := by
  have inverted := value_complement a.pn.toList
  rw [Vector.length_toList] at inverted
  rw [complement, toNat, Vector.toList_map]
  exact inverted

theorem toNat_negate [NeZero WIDTH] (a : BaseUint WIDTH) :
    (negate a).toNat = (2 ^ (32 * WIDTH) - a.toNat) % 2 ^ (32 * WIDTH) := by
  have bounded := toNat_lt a
  have whole : 2 ^ (32 * WIDTH) - 1 - a.toNat + 1 = 2 ^ (32 * WIDTH) - a.toNat := by omega
  rw [negate, toNat_increment, toNat_complement, whole]

theorem toNat_subAssign [NeZero WIDTH] (a b : BaseUint WIDTH) :
    (subAssign a b).toNat = (a.toNat + (2 ^ (32 * WIDTH) - b.toNat)) % 2 ^ (32 * WIDTH) := by
  rw [subAssign, toNat_addAssign, toNat_negate, Nat.add_mod_mod]

theorem subAssign_int [NeZero WIDTH] (a b : BaseUint WIDTH) :
    ((subAssign a b).toNat : Int) = ((a.toNat : Int) - b.toNat) % 2 ^ (32 * WIDTH) := by
  have bounded := Nat.le_of_lt (toNat_lt b)
  have moved : (a.toNat : Int) + ((2 ^ (32 * WIDTH) : Nat) - b.toNat) =
      a.toNat - b.toNat + (2 ^ (32 * WIDTH) : Nat) := by ring
  rw [toNat_subAssign, Int.natCast_emod, Int.natCast_add, Int.natCast_sub bounded, moved,
    Int.add_emod_right, Int.natCast_pow]
  rfl

/-- The loop of `CompareTo` over the lowest words, from the highest of them on down. -/
def compareBelow (a b : BaseUint WIDTH) : (count : Nat) → count ≤ WIDTH → Int
  | 0, _ => 0
  | i + 1, inside =>
    if a.pn[i] < b.pn[i] then -1
    else if a.pn[i] > b.pn[i] then 1
    else compareBelow a b i (by omega)

def compareTo (a b : BaseUint WIDTH) : Int := compareBelow a b WIDTH (Nat.le_refl _)

/-- The loop of `EqualTo` over the words above the lowest two. -/
def clearBelow (a : BaseUint (WIDTH + 2)) : (count : Nat) → count ≤ WIDTH → Bool
  | 0, _ => true
  | i + 1, inside => if a.pn[i + 2] ≠ 0 then false else clearBelow a i (by omega)

/-- `EqualTo`. -/
def equalTo64 (a : BaseUint (WIDTH + 2)) (b : BitVec 64) : Bool :=
  if !clearBelow a WIDTH (Nat.le_refl _) then false
  else if (a.pn[1]).setWidth 64 ≠ b >>> 32 then false
  else if (a.pn[0]).setWidth 64 ≠ b &&& 0xffffffff then false
  else true

theorem low_lt
    (inside : count ≤ WIDTH) :
    low pn count < 2 ^ (32 * count) := by
  have bounded := value_lt (pn.toList.take count)
  rwa [List.length_take, Vector.length_toList, Nat.min_eq_left inside] at bounded

/-- A higher word decides. -/
theorem low_succ_lt
    (inside : i < WIDTH)
    (less : first[i] < second[i]) :
    low first (i + 1) < low second (i + 1) := by
  have below := low_lt first (Nat.le_of_lt inside)
  have words : (first[i]).toNat + 1 ≤ (second[i]).toNat := less
  rw [low_succ _ inside, low_succ _ inside]
  calc low first i + 2 ^ (32 * i) * (first[i]).toNat
      < 2 ^ (32 * i) + 2 ^ (32 * i) * (first[i]).toNat := by omega
    _ = 2 ^ (32 * i) * ((first[i]).toNat + 1) := by ring
    _ ≤ 2 ^ (32 * i) * (second[i]).toNat := Nat.mul_le_mul_left _ words
    _ ≤ low second i + 2 ^ (32 * i) * (second[i]).toNat := Nat.le_add_left _ _

theorem compareBelow_eq
    (a b : BaseUint WIDTH)
    (count : Nat)
    (inside : count ≤ WIDTH) :
    compareBelow a b count inside =
      if low a.pn count < low b.pn count then -1
      else if low b.pn count < low a.pn count then 1
      else 0 := by
  induction count with
  | zero => rfl
  | succ i ih =>
    rw [compareBelow, ih]
    rcases Nat.lt_trichotomy (a.pn[i]).toNat (b.pn[i]).toNat with less | equal | more
    · have words : a.pn[i] < b.pn[i] := less
      rw [if_pos words, if_pos (low_succ_lt inside less)]
    · have words : a.pn[i] = b.pn[i] := BitVec.eq_of_toNat_eq equal
      rw [low_succ a.pn inside, low_succ b.pn inside, words, if_neg (BitVec.lt_irrefl _),
        if_neg (BitVec.lt_irrefl _)]
      simp
    · have words : a.pn[i] > b.pn[i] := more
      have above := low_succ_lt inside more
      have notLess : ¬ a.pn[i] < b.pn[i] := Nat.not_lt.mpr (Nat.le_of_lt more)
      rw [if_neg notLess, if_pos words, if_neg (Nat.not_lt.mpr (Nat.le_of_lt above)), if_pos above]

theorem compareTo_eq (a b : BaseUint WIDTH) :
    compareTo a b = if a.toNat < b.toNat then -1 else if b.toNat < a.toNat then 1 else 0 := by
  rw [compareTo, compareBelow_eq, low_all, low_all]

theorem toNat_injective {a b : BaseUint WIDTH} (equal : a.toNat = b.toNat) : a = b := by
  have same := value_injective (by rw [Vector.length_toList, Vector.length_toList]) equal
  exact BaseUint.ext (Vector.toList_inj.mp same)

theorem clearBelow_iff
    (a : BaseUint (WIDTH + 2))
    (count : Nat)
    (inside : count ≤ WIDTH) :
    clearBelow a count inside = true ↔ low a.pn (count + 2) = low a.pn 2 := by
  induction count with
  | zero =>
    rw [Nat.zero_add]
    exact ⟨fun _ => rfl, fun _ => rfl⟩
  | succ i ih =>
    have positive := Nat.two_pow_pos (32 * (i + 2))
    have word : a.pn[i + 2] = 0 ↔ (a.pn[i + 2]).toNat = 0 := BitVec.toNat_eq
    have grows : low a.pn 2 ≤ low a.pn (i + 2) := by
      rw [low_eq_mod, low_eq_mod, ← Nat.mod_mod_of_dvd a.toNat
        (Nat.pow_dvd_pow 2 (by omega : 32 * 2 ≤ 32 * (i + 2)))]
      exact Nat.mod_le _ _
    have moved : i + 1 + 2 = i + 2 + 1 := by omega
    rw [clearBelow, moved, low_succ a.pn (by omega : i + 2 < WIDTH + 2)]
    split_ifs with some
    · rw [ne_eq, word] at some
      have more := Nat.mul_pos positive (Nat.pos_of_ne_zero some)
      exact ⟨nofun, fun equal => by omega⟩
    · rw [not_not, word] at some
      rw [some, Nat.mul_zero, Nat.add_zero]
      exact ih (by omega)

theorem equalTo64_iff (a : BaseUint (WIDTH + 2)) (b : BitVec 64) :
    equalTo64 a b = true ↔ a.toNat = b.toNat := by
  have upper := clearBelow_iff a WIDTH (Nat.le_refl _)
  rw [low_all] at upper
  have two : low a.pn 2 = (a.pn[0]).toNat + 2 ^ 32 * (a.pn[1]).toNat := by
    rw [low_succ a.pn (by omega : 1 < WIDTH + 2), low_succ a.pn (by omega : 0 < WIDTH + 2),
      low_zero]
    omega
  have high : (a.pn[1]).setWidth 64 = b >>> 32 ↔ (a.pn[1]).toNat = b.toNat / 2 ^ 32 := by
    rw [BitVec.toNat_eq, BitVec.toNat_setWidth_of_le (by decide), BitVec.toNat_ushiftRight,
      Nat.shiftRight_eq_div_pow]
  have mask : (0xffffffff : BitVec 64).toNat = 2 ^ 32 - 1 := rfl
  have lowest : (a.pn[0]).setWidth 64 = b &&& 0xffffffff ↔ (a.pn[0]).toNat = b.toNat % 2 ^ 32 := by
    rw [BitVec.toNat_eq, BitVec.toNat_setWidth_of_le (by decide), BitVec.toNat_and, mask,
      Nat.and_two_pow_sub_one_eq_mod]
  have bits : equalTo64 a b = true ↔
      clearBelow a WIDTH (Nat.le_refl _) = true ∧ (a.pn[1]).toNat = b.toNat / 2 ^ 32 ∧
        (a.pn[0]).toNat = b.toNat % 2 ^ 32 := by
    rw [equalTo64, ← high, ← lowest]
    cases clearBelow a WIDTH (Nat.le_refl _) with
    | false => simp
    | true => simp
  have whole := low_eq_mod a 2
  rw [bits, upper, two]
  omega

/-- The search of `bits` in one word, from the bit `position` on down; the last one is taken for
set. -/
def highestBit (word : BitVec 32) : (position : Nat) → Nat
  | 0 => 1
  | position + 1 =>
    if word &&& (1 : BitVec 32) <<< (position + 1) ≠ 0 then position + 1 + 1
    else highestBit word position

/-- The search of `bits` in the lowest words, from the highest of them on down. -/
def bitsBelow (a : BaseUint WIDTH) : (count : Nat) → count ≤ WIDTH → Nat
  | 0, _ => 0
  | pos + 1, inside =>
    if a.pn[pos] ≠ 0 then 32 * pos + highestBit a.pn[pos] 31 else bitsBelow a pos (by omega)

/-- `bits`: the position of the highest bit set plus one, or zero. -/
def bits (a : BaseUint WIDTH) : Nat := bitsBelow a WIDTH (Nat.le_refl _)

theorem highestBit_eq_size
    (some : word ≠ 0)
    (within : position < 32)
    (below : word.toNat < 2 ^ (position + 1)) :
    highestBit word position = Nat.size word.toNat := by
  induction position with
  | zero =>
    have notZero : word.toNat ≠ 0 := fun none => some (BitVec.eq_of_toNat_eq none)
    have one : word.toNat = 1 := by omega
    rw [highestBit, one, Nat.size_one]
  | succ position ih =>
    have bit : word &&& (1 : BitVec 32) <<< (position + 1) = 0 ↔
        word.toNat.testBit (position + 1) = false := by
      have power : (1 : BitVec 32) <<< (position + 1) = BitVec.twoPow 32 (position + 1) := rfl
      rw [power, BitVec.and_twoPow, ← BitVec.testBit_toNat]
      split_ifs with isSet
      · rw [isSet]
        have nonzero : BitVec.twoPow 32 (position + 1) ≠ 0 := by
          intro zero
          have none := congrArg BitVec.toNat zero
          rw [BitVec.toNat_twoPow_of_lt within] at none
          exact Nat.ne_of_gt (Nat.two_pow_pos _) none
        exact ⟨fun zero => absurd zero nonzero, nofun⟩
      · exact ⟨fun _ => Bool.eq_false_of_not_eq_true isSet, fun _ => rfl⟩
    rw [highestBit]
    split_ifs with isSet
    · rw [ne_eq, bit, Bool.not_eq_false] at isSet
      refine le_antisymm (Nat.lt_size.mpr ?_) (Nat.size_le.mpr below)
      exact Nat.ge_two_pow_of_testBit isSet
    · rw [not_not, bit] at isSet
      refine ih (by omega) ?_
      have digit : word.toNat / 2 ^ (position + 1) < 2 := by
        rw [Nat.div_lt_iff_lt_mul (Nat.two_pow_pos _), ← Nat.pow_succ']
        exact below
      rw [Nat.testBit_eq_decide_div_mod_eq, decide_eq_false_iff_not] at isSet
      refine (Nat.div_eq_zero_iff_lt (Nat.two_pow_pos _)).mp ?_
      generalize word.toNat / 2 ^ (position + 1) = quotient at digit isSet ⊢
      omega

variable (a : BaseUint WIDTH)

theorem bitsBelow_eq_size
    (count : Nat)
    (inside : count ≤ WIDTH) :
    bitsBelow a count inside = Nat.size (low a.pn count) := by
  induction count with
  | zero => exact Nat.size_zero.symm
  | succ pos ih =>
    have below := low_lt a.pn (by omega : pos ≤ WIDTH)
    rw [bitsBelow, low_succ a.pn inside]
    split_ifs with some
    · have notZero : (a.pn[pos]).toNat ≠ 0 := fun none => some (BitVec.eq_of_toNat_eq none)
      rw [size_add_mul below (Nat.pos_of_ne_zero notZero),
        highestBit_eq_size some (by decide) (a.pn[pos]).isLt]
    · rw [not_not] at some
      have zero : (a.pn[pos]).toNat = 0 := by rw [some]; rfl
      rw [ih, zero, Nat.mul_zero, Nat.add_zero]

theorem bits_eq_size (a : BaseUint WIDTH) : bits a = Nat.size a.toNat := by
  rw [bits, bitsBelow_eq_size, low_all]

/-! ## Shifts -/

/-- `pn[index] |= word`, where there is such a word. -/
def orAt
    (index : Nat)
    (word : BitVec 32)
    (pn : Vector (BitVec 32) WIDTH) :
    Vector (BitVec 32) WIDTH :=
  if inside : index < WIDTH then pn.set index (pn[index] ||| word) else pn

/-- The loop of `operator<<=` by `k` words and `shift` bits over the lowest words. -/
def shlLoop
    (k shift : Nat)
    (a : BaseUint WIDTH) :
    (count : Nat) → count ≤ WIDTH → Vector (BitVec 32) WIDTH
  | 0, _ => Vector.replicate WIDTH 0
  | i + 1, inside =>
    let pn := shlLoop k shift a i (by omega)
    let pn := if shift ≠ 0 then orAt (i + k + 1) (a.pn[i] >>> (32 - shift)) pn else pn
    orAt (i + k) (a.pn[i] <<< shift) pn

/-- `operator<<=`. -/
def shlAssign (a : BaseUint WIDTH) (shift : Nat) : BaseUint WIDTH :=
  ⟨shlLoop (shift / 32) (shift % 32) a WIDTH (Nat.le_refl _)⟩

/-- The loop of `operator>>=` by `k` words and `shift` bits over the lowest words. -/
def shrLoop
    (k shift : Nat)
    (a : BaseUint WIDTH) :
    (count : Nat) → count ≤ WIDTH → Vector (BitVec 32) WIDTH
  | 0, _ => Vector.replicate WIDTH 0
  | i + 1, inside =>
    let pn := shrLoop k shift a i (by omega)
    let pn :=
      if k + 1 ≤ i ∧ shift ≠ 0 then orAt (i - k - 1) (a.pn[i] <<< (32 - shift)) pn else pn
    if k ≤ i then orAt (i - k) (a.pn[i] >>> shift) pn else pn

/-- `operator>>=`. -/
def shrAssign (a : BaseUint WIDTH) (shift : Nat) : BaseUint WIDTH :=
  ⟨shrLoop (shift / 32) (shift % 32) a WIDTH (Nat.le_refl _)⟩

theorem getElem_orAt
    (index : Nat)
    (word : BitVec 32)
    (pn : Vector (BitVec 32) WIDTH)
    (inside : place < WIDTH) :
    (orAt index word pn)[place] = if index = place then pn[place] ||| word else pn[place] := by
  unfold orAt
  by_cases within : index < WIDTH
  · rw [dif_pos within, Vector.getElem_set]
    split_ifs with same
    · subst same
      rfl
    · rfl
  · rw [dif_neg within, if_neg (by omega)]

theorem orAt_zero (index : Nat) (pn : Vector (BitVec 32) WIDTH) : orAt index 0 pn = pn := by
  ext place inside
  rw [getElem_orAt]
  split_ifs
  · rw [BitVec.ofNat_eq_ofNat, BitVec.or_zero]
  · rfl

/-- Without a shift within the words the guarded branch would not change anything. -/
theorem shlLoop_succ
    (k shift : Nat)
    (a : BaseUint WIDTH)
    (inside : i + 1 ≤ WIDTH) :
    shlLoop k shift a (i + 1) inside =
      orAt (i + k) (a.pn[i] <<< shift)
        (orAt (i + k + 1) (a.pn[i] >>> (32 - shift)) (shlLoop k shift a i (by omega))) := by
  rw [shlLoop]
  split_ifs with within
  · rfl
  · have none : a.pn[i] >>> (32 - shift) = 0 := BitVec.ushiftRight_eq_zero (by omega)
    rw [none, orAt_zero]

/-- Without a shift within the words the guard of the other branch does not matter either. -/
theorem shrLoop_guard
    (k shift : Nat)
    (word : BitVec 32)
    (i : Nat)
    (pn : Vector (BitVec 32) WIDTH) :
    (if k + 1 ≤ i ∧ shift ≠ 0 then orAt (i - k - 1) (word <<< (32 - shift)) pn else pn) =
      if k + 1 ≤ i then orAt (i - k - 1) (word <<< (32 - shift)) pn else pn := by
  by_cases within : shift = 0
  · have none : word <<< (32 - shift) = 0 := BitVec.shiftLeft_eq_zero (by omega)
    rw [none, orAt_zero, ite_self, ite_self]
  · simp [within]

theorem getElem_ite_orAt
    (guard : Prop)
    [Decidable guard]
    (index : Nat)
    (word : BitVec 32)
    (pn : Vector (BitVec 32) WIDTH)
    (inside : place < WIDTH) :
    (if guard then orAt index word pn else pn)[place] =
      if guard ∧ index = place then pn[place] ||| word else pn[place] := by
  by_cases holds : guard
  · rw [if_pos holds, getElem_orAt]
    simp [holds]
  · rw [if_neg holds, if_neg fun both => holds both.1]

/-- After so many rounds each word has got what its two neighbours in the number leave there. -/
theorem getElem_shlLoop
    (count : Nat)
    (inside : count ≤ WIDTH)
    (within : place < WIDTH) :
    (shlLoop k shift a count inside)[place] =
      (if k ≤ place ∧ place < count + k then a.pn[place - k] <<< shift else 0) |||
        if k + 1 ≤ place ∧ place < count + k + 1 then a.pn[place - k - 1] >>> (32 - shift)
        else 0 := by
  induction count with
  | zero =>
    have first : ¬ (k ≤ place ∧ place < 0 + k) := by omega
    have second : ¬ (k + 1 ≤ place ∧ place < 0 + k + 1) := by omega
    rw [if_neg first, if_neg second, shlLoop, Vector.getElem_replicate]
    rfl
  | succ i ih =>
    have before := ih (by omega)
    rw [shlLoop_succ, getElem_orAt, getElem_orAt, before]
    by_cases lower : i + k = place
    · subst lower
      have old : ¬ (k ≤ i + k ∧ i + k < i + k) := by omega
      have new : k ≤ i + k ∧ i + k < i + 1 + k := by omega
      have kept : (k + 1 ≤ i + k ∧ i + k < i + k + 1) ↔
          (k + 1 ≤ i + k ∧ i + k < i + 1 + k + 1) := by omega
      have other : ¬ i + k + 1 = i + k := by omega
      simp only [if_pos, if_neg old, if_pos new, if_neg other, kept, Nat.add_sub_cancel]
      rw [BitVec.ofNat_eq_ofNat, BitVec.zero_or, BitVec.or_comm]
    · by_cases upper : i + k + 1 = place
      · subst upper
        have old : ¬ (k + 1 ≤ i + k + 1 ∧ i + k + 1 < i + k + 1) := by omega
        have new : k + 1 ≤ i + k + 1 ∧ i + k + 1 < i + 1 + k + 1 := by omega
        have first : ¬ (k ≤ i + k + 1 ∧ i + k + 1 < i + k) := by omega
        have second : ¬ (k ≤ i + k + 1 ∧ i + k + 1 < i + 1 + k) := by omega
        have word : i + k + 1 - k - 1 = i := by omega
        simp only [if_neg lower, if_pos, if_neg old, if_pos new, if_neg first, if_neg second, word]
        rfl
      · have first : (k ≤ place ∧ place < i + k) ↔ (k ≤ place ∧ place < i + 1 + k) := by omega
        have second : (k + 1 ≤ place ∧ place < i + k + 1) ↔
            (k + 1 ≤ place ∧ place < i + 1 + k + 1) := by omega
        simp only [if_neg lower, if_neg upper, first, second]

theorem toList_shlAssign (a : BaseUint WIDTH) (shift : Nat) :
    (shlAssign a shift).pn.toList = shiftLeft shift a.pn.toList := by
  refine List.ext_getElem? fun place => ?_
  rw [shlAssign, shiftLeft, List.getElem?_take, Vector.length_toList]
  split_ifs with within
  · rw [List.getElem?_eq_getElem (by rwa [Vector.length_toList]), Vector.getElem_toList,
      getElem_shlLoop a WIDTH (Nat.le_refl _) within, List.getElem?_append, List.length_replicate]
    have words : ∀ index, (inside : index < WIDTH) →
        a.pn.toList[index]? = Option.some a.pn[index] := by
      intro index inside
      rw [List.getElem?_eq_getElem (by rwa [Vector.length_toList]), Vector.getElem_toList]
    generalize shift / 32 = k
    rcases Nat.lt_or_ge place k with below | reached
    · have first : ¬ (k ≤ place ∧ place < WIDTH + k) := by omega
      have second : ¬ (k + 1 ≤ place ∧ place < WIDTH + k + 1) := by omega
      rw [if_neg first, if_neg second, if_pos below, List.getElem?_replicate, if_pos below,
        BitVec.ofNat_eq_ofNat, BitVec.zero_or]
    · have first : k ≤ place ∧ place < WIDTH + k := by omega
      rw [if_pos first, if_neg (Nat.not_lt.mpr reached), getElem?_shiftUp,
        words (place - k) (by omega), Option.map_some]
      by_cases later : k + 1 ≤ place
      · have second : k + 1 ≤ place ∧ place < WIDTH + k + 1 := by omega
        obtain ⟨index, moved⟩ := Nat.exists_eq_add_of_le' later
        have upper : place - k = index + 1 := by omega
        simp only [if_pos second, upper, List.getElem?_cons_succ, words index (by omega),
          Option.getD_some, Nat.add_sub_cancel]
      · have second : ¬ (k + 1 ≤ place ∧ place < WIDTH + k + 1) := by omega
        have none : place - k = 0 := by omega
        simp only [if_neg second, none, List.getElem?_cons_zero, Option.getD_some,
          BitVec.ofNat_eq_ofNat, BitVec.zero_ushiftRight]
  · exact List.getElem?_eq_none (by rw [Vector.length_toList]; omega)

/-- After so many rounds each word has got what its two neighbours in the number leave there. -/
theorem getElem_shrLoop
    (count : Nat)
    (inside : count ≤ WIDTH)
    (within : place < WIDTH) :
    (shrLoop k shift a count inside)[place] =
      (if reached : place + k < count then a.pn[place + k] >>> shift else 0) |||
        if reached : place + k + 1 < count then a.pn[place + k + 1] <<< (32 - shift) else 0 := by
  induction count with
  | zero =>
    rw [dif_neg (Nat.not_lt_zero _), dif_neg (Nat.not_lt_zero _), shrLoop, Vector.getElem_replicate]
    rfl
  | succ i ih =>
    have before := ih (by omega)
    have lower : (k ≤ i ∧ i - k = place) ↔ i = place + k := by omega
    have upper : (k + 1 ≤ i ∧ i - k - 1 = place) ↔ i = place + k + 1 := by omega
    rw [shrLoop, shrLoop_guard, getElem_ite_orAt, getElem_ite_orAt, before]
    simp only [lower, upper]
    by_cases own : i = place + k
    · subst own
      simp
    · by_cases next : i = place + k + 1
      · subst next
        have further : place + k < place + k + 1 + 1 := by omega
        simp [further]
      · have first : place + k < i ↔ place + k < i + 1 := by omega
        have second : place + k + 1 < i ↔ place + k + 1 < i + 1 := by omega
        simp only [if_neg own, if_neg next, first, second]

theorem toList_shrAssign (a : BaseUint WIDTH) (shift : Nat) :
    (shrAssign a shift).pn.toList = shiftRight shift a.pn.toList := by
  refine List.ext_getElem? fun place => ?_
  rw [shrAssign, shiftRight, List.getElem?_take, Vector.length_toList]
  split_ifs with within
  · rw [List.getElem?_eq_getElem (by rwa [Vector.length_toList]), Vector.getElem_toList,
      getElem_shrLoop a WIDTH (Nat.le_refl _) within, List.getElem?_append, length_shiftDown,
      List.length_drop, Vector.length_toList]
    have words : ∀ index, a.pn.toList[index]? =
        if inside : index < WIDTH then Option.some a.pn[index] else Option.none := by
      intro index
      split_ifs with inside
      · rw [List.getElem?_eq_getElem (by rwa [Vector.length_toList]), Vector.getElem_toList]
      · exact List.getElem?_eq_none (by rw [Vector.length_toList]; omega)
    generalize shift / 32 = k
    by_cases reached : place + k < WIDTH
    · rw [dif_pos reached, if_pos (by omega), getElem?_shiftDown, List.getElem?_drop,
        List.getElem?_drop, words, words, Nat.add_comm k place, dif_pos reached, Option.map_some,
        ← Nat.add_assoc k, Nat.add_comm k place]
      split_ifs with more
      · rfl
      · rw [Option.getD_none, BitVec.ofNat_eq_ofNat, BitVec.zero_shiftLeft]
    · have filled : place - (WIDTH - k) < k := by omega
      have later : ¬ place + k + 1 < WIDTH := by omega
      rw [dif_neg reached, dif_neg later, if_neg (by omega), List.getElem?_replicate,
        if_pos filled, BitVec.ofNat_eq_ofNat, BitVec.or_zero]
  · exact List.getElem?_eq_none (by rw [Vector.length_toList]; omega)

theorem toNat_shlAssign (a : BaseUint WIDTH) (shift : Nat) :
    (shlAssign a shift).toNat = a.toNat * 2 ^ shift % 2 ^ (32 * WIDTH) := by
  rw [toNat, toList_shlAssign, value_shiftLeft (by decide), Vector.length_toList]
  rfl

theorem toNat_shrAssign (a : BaseUint WIDTH) (shift : Nat) :
    (shrAssign a shift).toNat = a.toNat / 2 ^ shift := by
  rw [toNat, toList_shrAssign, value_shiftRight (by decide)]
  rfl

/-- The loop of `operator/=` for the shifts below `rounds`, from the highest of them on down. -/
def divLoop [NeZero WIDTH] :
    (rounds : Nat) → (num div quotient : BaseUint WIDTH) → BaseUint WIDTH
  | 0, _, _, quotient => quotient
  | shift + 1, num, div, quotient =>
    if compareTo num div ≥ 0 then
      divLoop shift (subAssign num div) (shrAssign div 1)
        ⟨orAt (shift / 32) ((1 : BitVec 32) <<< (shift &&& 31)) quotient.pn⟩
    else divLoop shift num (shrAssign div 1) quotient

/-- `operator/=`, which throws when the divisor is zero. -/
def divAssign [NeZero WIDTH] (a b : BaseUint WIDTH) : Option (BaseUint WIDTH) :=
  let num_bits := bits a
  let div_bits := bits b
  let quotient : BaseUint WIDTH := ⟨Vector.replicate WIDTH 0⟩
  if div_bits = 0 then none
  else if div_bits > num_bits then some quotient
  else
    let shift := num_bits - div_bits
    some (divLoop (shift + 1) a (shlAssign b shift) quotient)

theorem toList_orAt
    (index : Nat)
    (word : BitVec 32)
    (pn : Vector (BitVec 32) WIDTH) :
    (orAt index word pn).toList = pn.toList.modify index (· ||| word) := by
  unfold orAt
  split_ifs with inside
  · have within : index < pn.toList.length := by rwa [Vector.length_toList]
    rw [Vector.toList_set, List.modify_eq_set, List.getElem?_eq_getElem within,
      Vector.getElem_toList]
    rfl
  · rw [List.modify_eq_self (by rw [Vector.length_toList]; omega)]

theorem toList_subAssign [NeZero WIDTH] (a b : BaseUint WIDTH) :
    (subAssign a b).pn.toList = subtract a.pn.toList b.pn.toList := by
  have same : a.pn.toList.length = b.pn.toList.length := by
    rw [Vector.length_toList, Vector.length_toList]
  refine value_injective ?_ ?_
  · rw [length_subtract same, Vector.length_toList, Vector.length_toList]
  · have exact := toNat_subAssign a b
    have wrapped := value_subtract_mod same
    rw [Vector.length_toList] at wrapped
    rw [wrapped]
    exact exact

theorem compareTo_eq_words (a b : BaseUint WIDTH) :
    compareTo a b = MultiWord.compareTo a.pn.toList b.pn.toList := by
  rw [compareTo_eq, MultiWord.compareTo_eq (by rw [Vector.length_toList, Vector.length_toList])]
  rfl

theorem toList_divLoop [NeZero WIDTH]
    (rounds : Nat)
    (num div quotient : BaseUint WIDTH) :
    (divLoop rounds num div quotient).pn.toList =
      divideRounds rounds num.pn.toList div.pn.toList quotient.pn.toList := by
  induction rounds generalizing num div quotient with
  | zero => rfl
  | succ shift ih =>
    have place : shift &&& 31 = shift % 32 := Nat.and_two_pow_sub_one_eq_mod shift 5
    rw [divLoop, divideRounds, ← compareTo_eq_words]
    by_cases fits : 0 ≤ compareTo num div
    · rw [if_pos fits, if_pos fits, ih, toList_subAssign, toList_shrAssign, toList_orAt, place]
      rfl
    · rw [if_neg fits, if_neg fits, ih, toList_shrAssign]

theorem divAssign_eq_divide [NeZero WIDTH] (a b : BaseUint WIDTH) :
    (divAssign a b).map (fun quotient => quotient.pn.toList) = divide a.pn.toList b.pn.toList := by
  have bitsA : bits a = MultiWord.bits a.pn.toList := by
    rw [bits_eq_size, MultiWord.bits_eq_size]
    rfl
  have bitsB : bits b = MultiWord.bits b.pn.toList := by
    rw [bits_eq_size, MultiWord.bits_eq_size]
    rfl
  rw [divAssign, divide, bitsA, bitsB, Vector.length_toList]
  split_ifs
  · rfl
  · rfl
  · rw [Option.map_some, toList_divLoop, toList_shlAssign]
    rfl

/-- Division throws for zero, and gives the quotient for every other divisor. -/
theorem divAssign_eq [NeZero WIDTH] (a b : BaseUint WIDTH) :
    (divAssign a b).map toNat = if b.toNat = 0 then none else some (a.toNat / b.toNat) := by
  have same : a.pn.toList.length = b.pn.toList.length := by
    rw [Vector.length_toList, Vector.length_toList]
  split_ifs with zero
  · have noBits : bits b = 0 := by rw [bits_eq_size, zero, Nat.size_zero]
    have thrown : divAssign a b = none := by
      rw [divAssign, noBits]
      exact if_pos rfl
    rw [thrown, Option.map_none]
  · obtain ⟨quotient, divided, _, exact⟩ := value_divide (by decide) same (Nat.pos_of_ne_zero zero)
    rw [← divAssign_eq_divide, Option.map_eq_some_iff] at divided
    obtain ⟨result, computed, rfl⟩ := divided
    rw [computed, Option.map_some]
    exact congrArg some exact

/-- For all operands of 256 bits: addition, subtraction and both multiplications agree with the
integers modulo 2 ** 256; the division throws for zero and gives the quotient otherwise; the shifts
multiply and divide by powers of two; and the comparisons follow the order of the integers. -/
theorem arithmetic_exact (a b : Words256) :
    (addAssign a b).toNat = (a.toNat + b.toNat) % 2 ^ 256 ∧
    ((subAssign a b).toNat : Int) = ((a.toNat : Int) - b.toNat) % 2 ^ 256 ∧
    (mulAssign a b).toNat = a.toNat * b.toNat % 2 ^ 256 ∧
    (∀ b32 : BitVec 32, (mulAssign32 a b32).toNat = a.toNat * b32.toNat % 2 ^ 256) ∧
    (divAssign a b).map toNat = (if b.toNat = 0 then none else some (a.toNat / b.toNat)) ∧
    (∀ shift, (shlAssign a shift).toNat = a.toNat * 2 ^ shift % 2 ^ 256) ∧
    (∀ shift, (shrAssign a shift).toNat = a.toNat / 2 ^ shift) ∧
    (compareTo a b < 0 ↔ a.toNat < b.toNat) ∧
    (compareTo a b > 0 ↔ b.toNat < a.toNat) ∧
    (compareTo a b = 0 ↔ a = b) ∧
    (a = b ↔ a.toNat = b.toNat) ∧
    (∀ b64 : BitVec 64, equalTo64 a b64 = true ↔ a.toNat = b64.toNat) ∧
    bits a = Nat.size a.toNat := by
  have order := compareTo_eq a b
  have words : a = b ↔ a.toNat = b.toNat :=
    ⟨fun same => by rw [same], fun equal => toNat_injective equal⟩
  refine ⟨toNat_addAssign a b, subAssign_int a b, toNat_mulAssign a b, toNat_mulAssign32 a,
    divAssign_eq a b, toNat_shlAssign a, toNat_shrAssign a, ?_, ?_, ?_, words, equalTo64_iff a,
    bits_eq_size a⟩
  · rw [order]
    split_ifs <;> omega
  · rw [order]
    split_ifs <;> omega
  · rw [order, words]
    rcases Nat.lt_trichotomy a.toNat b.toNat with less | equal | more
    · rw [if_pos less]
      exact ⟨nofun, fun equal => absurd equal (Nat.ne_of_lt less)⟩
    · rw [equal, if_neg (Nat.lt_irrefl _), if_neg (Nat.lt_irrefl _)]
      exact ⟨fun _ => rfl, fun _ => rfl⟩
    · rw [if_neg (Nat.not_lt.mpr (Nat.le_of_lt more)), if_pos more]
      exact ⟨nofun, fun equal => absurd equal (Nat.ne_of_gt more)⟩

end BaseUint

end ColossusCoin
