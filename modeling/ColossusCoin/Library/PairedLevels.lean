import Mathlib.Algebra.Order.Ring.Nat
import Mathlib.Data.List.Basic

/-!
# Levels of pairs

A list is hashed into one value level by level: neighbours are paired, and a last element
without a partner is paired with itself.  With an injective pairing the value determines the
list, as long as no level ends in two equal elements and the elements are no pairs themselves.
-/

namespace PairedLevels

/-- One level from the one below. -/
def nextLevel (pair : α → α → α) : List α → List α
  | [] => []
  | [last] => [pair last last]
  | left :: right :: rest => pair left right :: nextLevel pair rest

/-- The level at a height above the given one. -/
def levelAt (pair : α → α → α) (leaves : List α) : Nat → List α
  | 0 => leaves
  | height + 1 => nextLevel pair (levelAt pair leaves height)

/-- The level ends in a pair of equal elements. -/
def EndsTwice : List α → Prop
  | [left, right] => left = right
  | _ :: _ :: rest => EndsTwice rest
  | _ => False

@[simp] theorem nextLevel_nil : nextLevel pair [] = [] := rfl

@[simp] theorem nextLevel_singleton (last : α) :
    nextLevel pair [last] = [pair last last] := rfl

@[simp] theorem nextLevel_cons_cons (left right : α) (rest : List α) :
    nextLevel pair (left :: right :: rest) = pair left right :: nextLevel pair rest := rfl

@[simp] theorem levelAt_zero : levelAt pair leaves 0 = leaves := rfl

@[simp] theorem levelAt_succ (height : Nat) :
    levelAt pair leaves (height + 1) = nextLevel pair (levelAt pair leaves height) := rfl

theorem length_nextLevel (level : List α) :
    (nextLevel pair level).length = (level.length + 1) / 2 := by
  induction level using nextLevel.induct with
  | case1 => simp
  | case2 last => simp
  | case3 left right rest ih =>
    simp only [nextLevel_cons_cons, List.length_cons, ih]
    omega

theorem nextLevel_eq_nil_iff : nextLevel pair level = [] ↔ level = [] := by
  rw [← List.length_eq_zero_iff, ← List.length_eq_zero_iff, length_nextLevel]
  omega

theorem endsTwice_of_rest
    (twice : EndsTwice level) :
    EndsTwice (left :: right :: level) := by
  cases level with
  | nil => exact twice.elim
  | cons next rest => exact twice

/-- Levels that do not end in two equal elements are determined by the level above. -/
theorem nextLevel_injOn
    (injective : Function.Injective2 pair)
    (same : nextLevel pair first = nextLevel pair second)
    (firstOnce : ¬EndsTwice first)
    (secondOnce : ¬EndsTwice second) :
    first = second := by
  induction first using nextLevel.induct generalizing second with
  | case1 => exact (nextLevel_eq_nil_iff.mp same.symm).symm
  | case2 last =>
    match second with
    | [] => simp at same
    | [other] =>
      simp only [nextLevel_singleton, List.cons.injEq, and_true] at same
      rw [(injective same).1]
    | left :: right :: rest =>
      simp only [nextLevel_singleton, nextLevel_cons_cons, List.cons.injEq] at same
      obtain ⟨rfl, rfl⟩ := injective same.1
      rw [nextLevel_eq_nil_iff.mp same.2.symm] at secondOnce
      exact absurd rfl secondOnce
  | case3 left right rest ih =>
    match second with
    | [] => simp at same
    | [other] =>
      simp only [nextLevel_singleton, nextLevel_cons_cons, List.cons.injEq] at same
      obtain ⟨rfl, rfl⟩ := injective same.1
      rw [nextLevel_eq_nil_iff.mp same.2] at firstOnce
      exact absurd rfl firstOnce
    | otherLeft :: otherRight :: others =>
      simp only [nextLevel_cons_cons, List.cons.injEq] at same
      obtain ⟨rfl, rfl⟩ := injective same.1
      have tails := ih same.2 (fun twice => firstOnce (endsTwice_of_rest twice))
        fun twice => secondOnce (endsTwice_of_rest twice)
      rw [tails]

/-- A value stands at a height: at the bottom when it is no pair, and else one above both of its
parts. -/
inductive StandsAt (pair : α → α → α) : Nat → α → Prop
  | leaf {x : α} (unpaired : ∀ left right, pair left right ≠ x) : StandsAt pair 0 x
  | node {n : Nat} {left right : α} (leftStands : StandsAt pair n left)
      (rightStands : StandsAt pair n right) : StandsAt pair (n + 1) (pair left right)

theorem StandsAt.unique
    (injective : Function.Injective2 pair)
    (here : StandsAt pair m x)
    (there : StandsAt pair n x) :
    m = n := by
  induction here generalizing n with
  | leaf unpaired =>
    cases there with
    | leaf _ => rfl
    | node left right => exact absurd rfl (unpaired _ _)
  | @node height left right _ _ leftHypothesis _ =>
    generalize isPair : pair left right = value at there
    cases there with
    | leaf unpaired => exact absurd isPair (unpaired _ _)
    | node leftStands _ =>
      obtain ⟨rfl, rfl⟩ := injective isPair
      rw [leftHypothesis leftStands]

theorem standsAt_nextLevel
    (stands : ∀ x ∈ level, StandsAt pair n x) :
    ∀ x ∈ nextLevel pair level, StandsAt pair (n + 1) x := by
  induction level using nextLevel.induct with
  | case1 => simp
  | case2 last =>
    have lastStands := stands last (List.mem_singleton_self last)
    simpa using StandsAt.node lastStands lastStands
  | case3 left right rest ih =>
    simp only [List.forall_mem_cons] at stands
    obtain ⟨leftStands, rightStands, restStands⟩ := stands
    simp only [nextLevel_cons_cons, List.forall_mem_cons]
    exact And.intro (StandsAt.node leftStands rightStands) (ih restStands)

/-- A list comes to a value, and no level on the way ends in two equal elements. -/
inductive ComesTo (pair : α → α → α) : List α → α → Prop
  | single (root : α) : ComesTo pair [root] root
  | step {level : List α} {root : α} (several : 1 < level.length) (once : ¬EndsTwice level)
      (comes : ComesTo pair (nextLevel pair level) root) : ComesTo pair level root

/-- The value of elements that stand at one height stands there or above. -/
theorem ComesTo.standsAt
    (comes : ComesTo pair level root)
    (stands : ∀ x ∈ level, StandsAt pair n x) :
    ∃ height, n ≤ height ∧ StandsAt pair height root ∧ (1 < level.length → n < height) := by
  induction comes generalizing n with
  | single root => exact ⟨n, Nat.le_refl n, stands root (List.mem_singleton_self root), by simp⟩
  | step _ _ _ ih =>
    obtain ⟨height, above, rootStands, _⟩ := ih (standsAt_nextLevel stands)
    exact ⟨height, by omega, rootStands, fun _ => by omega⟩

/-- Two lists of elements at one height that come to the same value are equal. -/
theorem ComesTo.unique
    (injective : Function.Injective2 pair)
    (here : ComesTo pair first root)
    (there : ComesTo pair second root)
    (firstStands : ∀ x ∈ first, StandsAt pair n x)
    (secondStands : ∀ x ∈ second, StandsAt pair n x) :
    first = second := by
  induction here generalizing second n with
  | single root =>
    cases there with
    | single => rfl
    | step several once comes =>
      obtain ⟨height, _, rootStands, above⟩ :=
        (ComesTo.step several once comes).standsAt secondStands
      have rootBelow := firstStands root (List.mem_singleton_self root)
      have same := rootStands.unique injective rootBelow
      have := above several
      omega
  | @step level root several once comes ih =>
    cases there with
    | single =>
      obtain ⟨height, _, rootStands, above⟩ :=
        (ComesTo.step several once comes).standsAt firstStands
      have rootBelow := secondStands root (List.mem_singleton_self root)
      have same := rootStands.unique injective rootBelow
      have := above several
      omega
    | step _ otherOnce otherComes =>
      have levels := ih otherComes (standsAt_nextLevel firstStands)
        (standsAt_nextLevel secondStands)
      exact nextLevel_injOn injective levels once otherOnce

end PairedLevels

/-!
## Positions in levels of pairs

A level has a value at each position that has a leaf below it.  The leaves below a position are
those below the two positions under it, and the value at it is their pair; where there is no
leaf below the right one, the left one is paired with itself.
-/

namespace PairedLevels

variable {height : Nat}

/-- The number of values that a level has above so many leaves. -/
def width (count height : Nat) : Nat :=
  (count + 2 ^ height - 1) / 2 ^ height

/-- The part of a list of leaves that stands below a position. -/
def below (list : List β) (height position : Nat) : List β :=
  (list.drop (position * 2 ^ height)).take (2 ^ height)

theorem lt_width_iff {count : Nat} :
    position < width count height ↔ position * 2 ^ height < count := by
  have positive : 0 < 2 ^ height := Nat.two_pow_pos height
  rw [width, Nat.lt_div_iff_mul_lt positive]
  omega

theorem width_le_one_iff {count : Nat} : width count height ≤ 1 ↔ count ≤ 2 ^ height := by
  have second := @lt_width_iff height 1 count
  omega

theorem width_succ (count : Nat) : width count (height + 1) = (width count height + 1) / 2 := by
  refine eq_of_forall_lt_iff fun position => ?_
  have double : position * 2 ^ (height + 1) = 2 * position * 2 ^ height := by
    rw [Nat.pow_succ, Nat.mul_comm (2 ^ height), ← Nat.mul_assoc, Nat.mul_comm position]
  rw [lt_width_iff, double, ← lt_width_iff]
  omega

theorem levelAt_nextLevel (height : Nat) :
    levelAt pair (nextLevel pair level) height = levelAt pair level (height + 1) := by
  induction height with
  | zero => rfl
  | succ height ih => rw [levelAt_succ, ih, ← levelAt_succ]

theorem length_levelAt (height : Nat) :
    (levelAt pair leaves height).length = width leaves.length height := by
  induction height with
  | zero => simp [width]
  | succ height ih =>
    rw [levelAt_succ, length_nextLevel, ih, width_succ]

theorem getElem?_nextLevel (level : List α) (position : Nat) :
    (nextLevel pair level)[position]? =
      level[2 * position]?.map fun left => pair left (level[2 * position + 1]?.getD left) := by
  induction level using nextLevel.induct generalizing position with
  | case1 => simp
  | case2 last =>
    cases position with
    | zero => simp
    | succ position => simp [Nat.mul_succ]
  | case3 left right rest ih =>
    cases position with
    | zero => simp
    | succ position =>
      rw [nextLevel_cons_cons, List.getElem?_cons_succ, ih]
      rfl

theorem below_zero (list : List β) : below list 0 position = list[position]?.toList := by
  rw [below, Nat.pow_zero, Nat.mul_one, List.take_one, List.head?_drop]

theorem below_succ (list : List β) :
    below list (height + 1) position =
      below list height (position * 2) ++ below list height (position * 2 + 1) := by
  have double : 2 ^ (height + 1) = 2 ^ height + 2 ^ height := by rw [Nat.pow_succ]; omega
  have start : position * 2 ^ (height + 1) = position * 2 * 2 ^ height := by
    rw [Nat.pow_succ, Nat.mul_comm (2 ^ height), Nat.mul_assoc]
  have middle : (position * 2 + 1) * 2 ^ height = position * 2 * 2 ^ height + 2 ^ height := by
    rw [Nat.add_mul, Nat.one_mul]
  rw [below, below, below, start, double, middle, List.take_add, List.drop_drop]

theorem below_eq_nil_iff :
    below list height position = [] ↔ list.length ≤ position * 2 ^ height := by
  have positive : 2 ^ height ≠ 0 := (Nat.two_pow_pos height).ne'
  rw [below, List.take_eq_nil_iff, List.drop_eq_nil_iff]
  exact or_iff_right positive

theorem below_top
    (bounded : list.length ≤ 2 ^ height) :
    below list height 0 = list := by
  rw [below, Nat.zero_mul, List.drop_zero, List.take_of_length_le bounded]

theorem mem_below_iff
    {x : β} :
    x ∈ below list height position ↔
      ∃ place, position * 2 ^ height ≤ place ∧ place < (position + 1) * 2 ^ height ∧
        list[place]? = some x := by
  rw [below, List.mem_iff_getElem?, Nat.add_mul, Nat.one_mul]
  constructor
  · rintro ⟨offset, there⟩
    rw [List.getElem?_take] at there
    split_ifs at there with inPart
    rw [List.getElem?_drop] at there
    exact ⟨position * 2 ^ height + offset, by omega, by omega, there⟩
  · rintro ⟨place, least, most, there⟩
    refine ⟨place - position * 2 ^ height, ?_⟩
    rw [List.getElem?_take_of_lt (by omega), List.getElem?_drop, Nat.add_sub_cancel' least]
    exact there

end PairedLevels
