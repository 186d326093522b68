import Mathlib.Data.List.Nodup
import Mathlib.Data.List.Perm.Subperm

/-!
# Occupied cells

A table has an item in each of its cells, or none.  How often an item occurs changes by one when a
cell is filled or cleared, and there are no more items that occur than there are cells.
-/

namespace Occupancy

variable [DecidableEq Item]

/-- How many of these cells have an item. -/
def occurrences (cells : List Cell) (table : Cell → Option Item) (item : Item) : Nat :=
  cells.countP fun cell => table cell = some item

@[simp] theorem occurrences_nil (table : Cell → Option Item) (item : Item) :
    occurrences [] table item = 0 := rfl

theorem occurrences_cons (cell : Cell) (cells : List Cell) (table : Cell → Option Item)
    (item : Item) :
    occurrences (cell :: cells) table item =
      occurrences cells table item + if table cell = some item then 1 else 0 := by
  rw [occurrences, List.countP_cons]
  simp [occurrences]

theorem occurrences_append (first second : List Cell) (table : Cell → Option Item) (item : Item) :
    occurrences (first ++ second) table item =
      occurrences first table item + occurrences second table item :=
  List.countP_append

variable {table : Cell → Option Item}

theorem occurrences_pos_iff :
    0 < occurrences cells table item ↔ ∃ cell ∈ cells, table cell = some item := by
  simp [occurrences]

theorem occurrences_eq_zero_iff :
    occurrences cells table item = 0 ↔ ∀ cell ∈ cells, table cell ≠ some item := by
  simp [occurrences]

theorem occurrences_congr
    (same : ∀ cell ∈ cells, other cell = table cell) (item : Item) :
    occurrences cells other item = occurrences cells table item :=
  List.countP_congr fun cell member => by rw [same cell member]

variable [DecidableEq Cell]

/-- Changing a cell takes its item away once and gives the new one once. -/
theorem occurrences_update
    (nodup : cells.Nodup)
    (member : cell ∈ cells)
    (table : Cell → Option Item) (change : Option Item) (item : Item) :
    occurrences cells (Function.update table cell change) item +
        (if table cell = some item then 1 else 0) =
      occurrences cells table item + if change = some item then 1 else 0 := by
  obtain ⟨before, after, rfl⟩ := List.append_of_mem member
  have away : cell ∉ before ++ after := (List.nodup_cons.mp (List.nodup_middle.mp nodup)).1
  have others : ∀ other ∈ before ++ after,
      Function.update table cell change other = table other := by
    intro other present
    have apart : other ≠ cell := by
      rintro rfl
      exact away present
    exact Function.update_of_ne apart change table
  have first := occurrences_congr (fun other present =>
    others other (List.mem_append_left after present)) item
  have second := occurrences_congr (fun other present =>
    others other (List.mem_append_right before present)) item
  rw [occurrences_append, occurrences_append, occurrences_cons, occurrences_cons, first, second,
    Function.update_self]
  omega

theorem occurrences_fill
    (nodup : cells.Nodup)
    (member : cell ∈ cells)
    (empty : table cell = none)
    (entering item : Item) :
    occurrences cells (Function.update table cell (some entering)) item =
      occurrences cells table item + if entering = item then 1 else 0 := by
  have counted := occurrences_update nodup member table (some entering) item
  rw [empty, if_neg (Option.some_ne_none item).symm] at counted
  simpa only [Option.some.injEq, Nat.add_zero] using counted

theorem occurrences_clear
    (nodup : cells.Nodup)
    (member : cell ∈ cells)
    (occupied : table cell = some leaving)
    (item : Item) :
    occurrences cells table item =
      occurrences cells (Function.update table cell none) item +
        if leaving = item then 1 else 0 := by
  have counted := occurrences_update nodup member table none item
  rw [occupied, if_neg (Option.some_ne_none item).symm] at counted
  simpa only [Option.some.injEq, Nat.add_zero] using counted.symm

omit [DecidableEq Cell] in
theorem length_le_of_occurs
    {items : List Item}
    (nodup : items.Nodup)
    (occurs : ∀ item ∈ items, 0 < occurrences cells table item) :
    items.length ≤ cells.length := by
  have present : items ⊆ cells.filterMap table := by
    intro item member
    obtain ⟨cell, here, holds⟩ := occurrences_pos_iff.mp (occurs item member)
    exact List.mem_filterMap.mpr ⟨cell, here, holds⟩
  exact Nat.le_trans (List.subperm_of_subset nodup present).length_le (List.length_filterMap_le _ _)

end Occupancy
