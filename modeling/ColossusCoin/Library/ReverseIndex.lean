import ColossusCoin.Library.SortedMap
import Mathlib.Data.Finset.Basic

/-!
# Reverse indexes

A reverse index files items under the targets that they refer to.  A target without items has no
entry.  Items are filed and struck target by target, where an item may name a target more than
once.
-/

namespace ReverseIndex

variable [LinearOrder Target] [DecidableEq Item]

/-- The items under each target. -/
abbrev Index (Target Item : Type*) [LinearOrder Target] := SortedMap Target (Finset Item)

/-- The items filed under a target. -/
def listed (index : Index Target Item) (target : Target) : Finset Item :=
  (index.get? target).getD ∅

/-- File an item under a target. -/
def file (item : Item) (index : Index Target Item) (target : Target) : Index Target Item :=
  index.insert target (insert item (listed index target))

/-- Strike an item from a target, and the target's entry when no item is left. -/
def strike (item : Item) (index : Index Target Item) (target : Target) : Index Target Item :=
  match index.get? target with
  | none => index
  | some items =>
    if items.erase item = ∅ then index.erase target
    else index.insert target (items.erase item)

/-- No entry is empty. -/
def Occupied (index : Index Target Item) : Prop :=
  ∀ target items, index.get? target = some items → items ≠ ∅

variable {index : Index Target Item}

omit [DecidableEq Item] in
theorem listed_insert (items : Finset Item) :
    listed (index.insert target items) wanted =
      if wanted = target then items else listed index wanted := by
  rw [listed, SortedMap.get?_insert]
  split_ifs
  · rfl
  · rfl

omit [DecidableEq Item] in
theorem listed_erase :
    listed (index.erase target) wanted = if wanted = target then ∅ else listed index wanted := by
  rw [listed, SortedMap.get?_erase]
  split_ifs
  · rfl
  · rfl

theorem mem_listed_file :
    other ∈ listed (file item index target) wanted ↔
      other ∈ listed index wanted ∨ other = item ∧ wanted = target := by
  rw [file, listed_insert]
  split_ifs with same
  · rw [Finset.mem_insert, same, or_comm, and_iff_left rfl]
  · rw [iff_false_intro same, and_false, or_false]

theorem mem_listed_strike :
    other ∈ listed (strike item index target) wanted ↔
      other ∈ listed index wanted ∧ ¬(other = item ∧ wanted = target) := by
  by_cases same : wanted = target
  · subst same
    rw [and_iff_left rfl, and_comm, ← ne_eq, ← Finset.mem_erase, strike]
    cases found : index.get? wanted with
    | none =>
      have nothing : listed index wanted = ∅ := by rw [listed, found, Option.getD_none]
      rw [nothing, Finset.erase_empty]
    | some items =>
      have here : listed index wanted = items := by rw [listed, found, Option.getD_some]
      dsimp only
      split_ifs with last
      · rw [listed_erase, if_pos rfl, here, last]
      · rw [listed_insert, if_pos rfl, here]
  · rw [iff_false_intro same, and_false, not_false_eq_true, and_true, strike]
    cases found : index.get? target with
    | none => rfl
    | some items =>
      dsimp only
      split_ifs with last
      · rw [listed_erase, if_neg same]
      · rw [listed_insert, if_neg same]

theorem occupied_file (occupied : Occupied index) : Occupied (file item index target) := by
  intro wanted items found
  rw [file, SortedMap.get?_insert] at found
  split_ifs at found
  · rw [← Option.some.inj found]
    exact Finset.insert_ne_empty _ _
  · exact occupied wanted items found

theorem occupied_strike (occupied : Occupied index) : Occupied (strike item index target) := by
  intro wanted items found
  rw [strike] at found
  cases before : index.get? target with
  | none =>
    rw [before] at found
    exact occupied wanted items found
  | some others =>
    rw [before] at found
    dsimp only at found
    split_ifs at found with last
    · exact occupied wanted items (SortedMap.get?_of_erase found)
    · rw [SortedMap.get?_insert] at found
      split_ifs at found
      · rwa [← Option.some.inj found]
      · exact occupied wanted items found

theorem mem_listed_foldl_file (targets : List Target) :
    other ∈ listed (targets.foldl (file item) index) wanted ↔
      other ∈ listed index wanted ∨ other = item ∧ wanted ∈ targets := by
  induction targets generalizing index with
  | nil => rw [List.foldl_nil, iff_false_intro List.not_mem_nil, and_false, or_false]
  | cons target rest ih =>
    rw [List.foldl_cons, ih, mem_listed_file, List.mem_cons, or_assoc, ← and_or_left]

theorem mem_listed_foldl_strike (targets : List Target) :
    other ∈ listed (targets.foldl (strike item) index) wanted ↔
      other ∈ listed index wanted ∧ ¬(other = item ∧ wanted ∈ targets) := by
  induction targets generalizing index with
  | nil => rw [List.foldl_nil, iff_false_intro List.not_mem_nil, and_false, not_false_eq_true,
      and_true]
  | cons target rest ih =>
    rw [List.foldl_cons, ih, mem_listed_strike, List.mem_cons, and_assoc, ← not_or, ← and_or_left]

omit [DecidableEq Item] in
theorem occupied_foldl
    (keeps : ∀ index target, Occupied index → Occupied (step index target))
    (targets : List Target)
    (occupied : Occupied index) :
    Occupied (targets.foldl step index) := by
  induction targets generalizing index with
  | nil => exact occupied
  | cons target rest ih => exact ih (keeps index target occupied)

end ReverseIndex
