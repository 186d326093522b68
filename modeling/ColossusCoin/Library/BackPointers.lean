import Mathlib.Data.List.Nodup

/-!
# Lists with back pointers

Items in a list, each of which knows its place.  Items are appended, exchanged with each other and
taken from the end, so that any item can be removed without moving more than one other.
-/

namespace BackPointers

theorem getElem?_snoc (order : List Item) (last : Item) (index : Nat) :
    (order ++ [last])[index]? = if index = order.length then some last else order[index]? := by
  rw [List.getElem?_append]
  by_cases below : index < order.length
  · rw [if_pos below, if_neg (Nat.ne_of_lt below)]
  · rw [if_neg below, List.getElem?_singleton, List.getElem?_eq_none (Nat.le_of_not_lt below)]
    exact if_congr (by omega) rfl rfl

theorem exists_getElem?_snoc
    {order : List Item} {last : Item} {index : Nat} {property : Item → Prop} :
    (∃ item, (order ++ [last])[index]? = some item ∧ property item) ↔
      (∃ item, order[index]? = some item ∧ property item) ∨
        index = order.length ∧ property last := by
  rw [getElem?_snoc]
  by_cases atEnd : index = order.length
  · rw [if_pos atEnd, atEnd, List.getElem?_eq_none (Nat.le_refl _)]
    simp
  · rw [if_neg atEnd]
    simp [atEnd]

/-- The items know their places: the list has an item at a place exactly when the item points
there. -/
def Placed (order : List Item) (place : Item → Option Nat) : Prop :=
  ∀ item index, place item = some index ↔ order[index]? = some item

namespace Placed

variable {place : Item → Option Nat} {index : Nat}

theorem nil : Placed ([] : List Item) fun _ => none := by
  intro item index
  simp

theorem mem_iff
    (placed : Placed order place) :
    item ∈ order ↔ ∃ index, place item = some index := by
  simp only [placed item, List.mem_iff_getElem?]

theorem nodup
    (placed : Placed order place) :
    order.Nodup := by
  rw [List.nodup_iff_getElem?_ne_getElem?]
  intro first second below bounded same
  have present : order[first]? = some order[first] := List.getElem?_eq_getElem (by omega)
  have here := (placed _ first).mpr present
  have there := (placed _ second).mpr (same.symm.trans present)
  rw [here] at there
  cases there
  exact Nat.lt_irrefl first below

theorem index_unique
    (placed : Placed order place)
    (here : order[index]? = some item)
    (there : order[other]? = some item) :
    index = other :=
  Option.some.inj (((placed item index).mpr here).symm.trans ((placed item other).mpr there))

variable [DecidableEq Item]

/-- A new item goes to the end. -/
theorem push
    (placed : Placed order place)
    (fresh : place item = none) :
    Placed (order ++ [item]) (Function.update place item (some order.length)) := by
  intro other index
  rw [getElem?_snoc]
  by_cases same : other = item
  · subst same
    rw [Function.update_self, Option.some.injEq]
    constructor
    · intro last
      rw [if_pos last.symm]
    · intro found
      by_contra inside
      rw [if_neg (Ne.symm inside)] at found
      exact absurd (((placed other index).mpr found).symm.trans fresh) (Option.some_ne_none index)
  · rw [Function.update_of_ne same, placed other index]
    split_ifs with atEnd
    · rw [atEnd, List.getElem?_eq_none (Nat.le_refl _), Option.some.injEq]
      exact iff_of_false (Option.some_ne_none other).symm (Ne.symm same)
    · rfl

theorem swap
    (placed : Placed order place)
    (atFirst : order[firstIndex]? = some first)
    (atSecond : order[secondIndex]? = some second)
    (apart : firstIndex ≠ secondIndex) :
    Placed ((order.set firstIndex second).set secondIndex first)
      (Function.update (Function.update place first (some secondIndex)) second
        (some firstIndex)) := by
  have differ : first ≠ second := by
    rintro rfl
    exact apart (placed.index_unique atFirst atSecond)
  have firstBound := (List.getElem?_eq_some_iff.mp atFirst).1
  have secondBound := (List.getElem?_eq_some_iff.mp atSecond).1
  intro item index
  rw [List.getElem?_set, List.getElem?_set, List.length_set, if_pos secondBound, if_pos firstBound]
  by_cases isSecond : item = second
  · subst isSecond
    rw [Function.update_self, Option.some.injEq]
    split_ifs with there here
    · rw [Option.some.injEq]
      exact ⟨fun same => absurd (same.trans there.symm) apart, fun same => absurd same differ⟩
    · exact ⟨fun _ => rfl, fun _ => here⟩
    · exact ⟨fun same => absurd same here,
        fun found => absurd (placed.index_unique atSecond found) there⟩
  · rw [Function.update_of_ne isSecond]
    by_cases isFirst : item = first
    · subst isFirst
      rw [Function.update_self, Option.some.injEq]
      split_ifs with there here
      · exact ⟨fun _ => rfl, fun _ => there⟩
      · rw [Option.some.injEq]
        exact ⟨fun same => absurd same there, fun same => absurd same.symm isSecond⟩
      · exact ⟨fun same => absurd same there,
          fun found => absurd (placed.index_unique atFirst found) here⟩
    · rw [Function.update_of_ne isFirst, placed item index]
      split_ifs with there here
      · rw [← there, atSecond, Option.some.injEq, Option.some.injEq]
        exact ⟨fun same => absurd same.symm isSecond, fun same => absurd same.symm isFirst⟩
      · rw [← here, atFirst, Option.some.injEq, Option.some.injEq]
        exact ⟨fun same => absurd same.symm isFirst, fun same => absurd same.symm isSecond⟩
      · rfl

theorem pop
    (placed : Placed (order ++ [item]) place) :
    Placed order (Function.update place item none) := by
  intro other index
  by_cases same : other = item
  · subst same
    rw [Function.update_self]
    refine iff_of_false (Option.some_ne_none index).symm fun found => ?_
    have bounded := (List.getElem?_eq_some_iff.mp found).1
    rw [← List.getElem?_append_left bounded] at found
    exact absurd (placed.index_unique found List.getElem?_concat_length) (by omega)
  · rw [Function.update_of_ne same, placed other index, getElem?_snoc]
    split_ifs with atEnd
    · rw [atEnd, List.getElem?_eq_none (Nat.le_refl _), Option.some.injEq]
      exact iff_of_false (Ne.symm same) (Option.some_ne_none other).symm
    · rfl

end Placed

end BackPointers
