import Mathlib.Algebra.Order.BigOperators.Group.List
import Mathlib.Algebra.Order.Ring.Int

/-!
# Amounts under keys

Lists of amounts under keys that may repeat: what lies under a key, its sum and its largest
amount, and a list with one entry for each of some keys.
-/

namespace Aggregates

variable [DecidableEq Key]

/-- The amounts under a key. -/
def amountsAt (entries : List (Key × Int)) (key : Key) : List Int :=
  (entries.filter fun entry => entry.1 = key).map Prod.snd

/-- The sum of the amounts under a key. -/
def sumAt (entries : List (Key × Int)) (key : Key) : Int :=
  (amountsAt entries key).sum

/-- The largest of some amounts, 0 where none is positive. -/
def largest (amounts : List Int) : Int :=
  amounts.foldr max 0

@[simp] theorem largest_nil : largest [] = 0 := rfl

@[simp] theorem largest_cons (amount : Int) (amounts : List Int) :
    largest (amount :: amounts) = max amount (largest amounts) := rfl

@[simp] theorem sumAt_nil (key : Key) : sumAt [] key = 0 := rfl

theorem sumAt_cons (entry : Key × Int) (entries : List (Key × Int)) (key : Key) :
    sumAt (entry :: entries) key = (if entry.1 = key then entry.2 else 0) + sumAt entries key := by
  unfold sumAt amountsAt
  by_cases here : entry.1 = key
  · simp [here]
  · simp [here]

theorem sumAt_append (first second : List (Key × Int)) (key : Key) :
    sumAt (first ++ second) key = sumAt first key + sumAt second key := by
  simp [sumAt, amountsAt]

theorem mem_amountsAt
    {key : Key} :
    amount ∈ amountsAt entries key ↔ (key, amount) ∈ entries := by
  simp [amountsAt]

theorem largest_nonneg (amounts : List Int) : 0 ≤ largest amounts := by
  induction amounts with
  | nil => exact le_refl 0
  | cons amount rest ih => exact le_max_of_le_right ih

theorem largest_le_iff (nonneg : 0 ≤ bound) :
    largest amounts ≤ bound ↔ ∀ amount ∈ amounts, amount ≤ bound := by
  induction amounts with
  | nil => simp [nonneg]
  | cons amount rest ih =>
    rw [largest_cons, max_le_iff, ih, List.forall_mem_cons]

theorem le_largest (member : amount ∈ amounts) :
    amount ≤ largest amounts :=
  (largest_le_iff (largest_nonneg amounts)).mp (le_refl _) amount member

theorem largest_le_sum
    (nonneg : ∀ amount ∈ amounts, 0 ≤ amount) :
    largest amounts ≤ amounts.sum := by
  rw [largest_le_iff (List.sum_nonneg nonneg)]
  exact List.single_le_sum nonneg

/-- Amounts that are not negative have a sum larger than each of them as soon as two of them
are positive. -/
theorem sum_le_largest_iff
    (nonneg : ∀ amount ∈ amounts, 0 ≤ amount) :
    amounts.sum ≤ largest amounts ↔
      amounts.Pairwise fun first second => first = 0 ∨ second = 0 := by
  induction amounts with
  | nil => simp
  | cons amount rest ih =>
    obtain ⟨first, others⟩ := List.forall_mem_cons.mp nonneg
    have below := largest_le_sum others
    have bound := largest_nonneg rest
    rw [List.pairwise_cons, ← ih others, List.sum_cons, largest_cons]
    by_cases zero : amount = 0
    · subst zero
      simp [bound]
    · have alone : (∀ other ∈ rest, amount = 0 ∨ other = 0) ↔ rest.sum = 0 := by
        constructor
        · intro zeros
          apply List.sum_eq_zero
          intro other member
          exact (zeros other member).resolve_left zero
        · intro sumZero other member
          have single := List.single_le_sum others other member
          have atLeast := others other member
          right
          omega
      rw [alone]
      omega

/-- Entries for some keys, each with the amount that a function has for it. -/
def tabulate (keys : List Key) (amount : Key → Int) : List (Key × Int) :=
  keys.map fun key => (key, amount key)

theorem sumAt_tabulate
    (distinct : keys.Nodup) (amount : Key → Int) (key : Key) :
    sumAt (tabulate keys amount) key = if key ∈ keys then amount key else 0 := by
  induction keys with
  | nil => rfl
  | cons first rest ih =>
    obtain ⟨fresh, restDistinct⟩ := List.nodup_cons.mp distinct
    have unfolded : tabulate (first :: rest) amount =
        (first, amount first) :: tabulate rest amount := rfl
    rw [unfolded, sumAt_cons, ih restDistinct]
    by_cases here : first = key
    · subst here
      simp [fresh]
    · simp [here, Ne.symm here]

end Aggregates
