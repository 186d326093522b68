import Mathlib.Data.Int.CardIntervalMod
import Mathlib.Data.Int.ConditionallyCompleteOrder
import Mathlib.Data.Set.Card

/-!
# Multiples in a range

Events that fall on the multiples of a period: how many of them lie in a range, and which
multiple comes next.
-/

namespace Multiples

/-- The multiples of a cycle in a range, from the quotients of its ends. -/
theorem card_multiples
    (positive : 0 < cycle)
    (before last : Int) :
    (((Finset.Ioc before last).filter fun nHeight => cycle ∣ nHeight).card : Int) =
      max (last / cycle - before / cycle) 0 := by
  have floors : ∀ height : Int, ⌊(height : ℚ) / (cycle : ℚ)⌋ = height / cycle := by
    intro height
    obtain ⟨length, rfl⟩ := Int.eq_ofNat_of_zero_le positive.le
    exact_mod_cast Rat.floor_intCast_div_natCast height length
  rw [Int.Ioc_filter_dvd_card _ _ positive, floors, floors]

/-- The quotient drops before a multiple only. -/
theorem ediv_pred
    (positive : 0 < cycle)
    (first : Int) :
    (first - 1) / cycle = if cycle ∣ first then first / cycle - 1 else first / cycle := by
  have parts := Int.emod_add_mul_ediv first cycle
  have below := Int.emod_lt_of_pos first positive
  rw [Int.mul_comm] at parts
  split_ifs with multiple
  · rw [Int.ediv_eq_iff_of_pos positive, Int.sub_mul, Int.one_mul]
    omega
  · have apart : first % cycle ≠ 0 := fun zero => multiple (Int.dvd_of_emod_eq_zero zero)
    rw [Int.ediv_eq_iff_of_pos positive]
    omega

/-- The multiples after those that come next from a start on are the positive ones. -/
theorem exists_next_iff
    (positive : 0 < cycle)
    (multiple : Int) :
    (∃ height, 0 ≤ height ∧ height - height % cycle + cycle = multiple) ↔
      0 < multiple ∧ cycle ∣ multiple := by
  constructor
  · rintro ⟨height, nonneg, rfl⟩
    have below := Int.emod_lt_of_pos height positive
    exact ⟨by omega, dvd_add Int.dvd_self_sub_emod (dvd_refl cycle)⟩
  · rintro ⟨after, divides⟩
    have first := Int.le_of_dvd after divides
    refine ⟨multiple - cycle, by omega, ?_⟩
    rw [Int.emod_eq_zero_of_dvd (dvd_sub divides (dvd_refl cycle))]
    omega

/-- The positive multiples whose cycle lies within a range. -/
def cyclesWithin (cycle first last : Int) : Set Int :=
  {multiple | (0 < multiple ∧ cycle ∣ multiple) ∧
    first ≤ multiple ∧ multiple + cycle - 1 ≤ last}

theorem cyclesWithin_eq (cycle first last : Int) :
    cyclesWithin cycle first last =
      ((Finset.Ioc (max 0 (first - 1)) (last - cycle + 1)).filter
        fun multiple => cycle ∣ multiple : Finset Int) := by
  ext multiple
  rw [Finset.mem_coe, Finset.mem_filter, Finset.mem_Ioc]
  have opens : max 0 (first - 1) < multiple ↔ 0 < multiple ∧ first ≤ multiple := by omega
  have closes : multiple ≤ last - cycle + 1 ↔ multiple + cycle - 1 ≤ last := by omega
  rw [opens, closes]
  constructor
  · rintro ⟨⟨after, divides⟩, starts, ends⟩
    exact ⟨⟨⟨after, starts⟩, ends⟩, divides⟩
  · rintro ⟨⟨⟨after, starts⟩, ends⟩, divides⟩
    exact ⟨⟨after, divides⟩, starts, ends⟩

theorem finite_cyclesWithin (cycle first last : Int) : (cyclesWithin cycle first last).Finite := by
  rw [cyclesWithin_eq]
  exact Finset.finite_toSet _

/-- A range that opens with a positive multiple holds one cycle more. -/
theorem ncard_cyclesWithin
    (positive : 0 < cycle)
    (nonneg : 0 ≤ first)
    (last : Int) :
    ((cyclesWithin cycle first last).ncard : Int) =
      max ((last + 1) / cycle - 1 - first / cycle +
        if cycle ∣ first ∧ 0 < first then 1 else 0) 0 := by
  have whole : (last - cycle + 1) / cycle = (last + 1) / cycle - 1 := by
    have same : last - cycle + 1 = last + 1 + -1 * cycle := by omega
    rw [same, Int.add_mul_ediv_right _ _ positive.ne']
    omega
  rw [cyclesWithin_eq, Set.ncard_coe_finset, card_multiples positive, whole]
  rcases nonneg.eq_or_lt with rfl | after
  · have opens : max 0 ((0 : Int) - 1) = 0 := by omega
    rw [opens, Int.zero_ediv, if_neg (by omega)]
    omega
  · have opens : max 0 (first - 1) = first - 1 := by omega
    rw [opens, ediv_pred positive]
    split_ifs <;> omega

end Multiples
