import Mathlib.Algebra.BigOperators.Group.List.Basic
import Mathlib.Algebra.Order.Ring.Int
import Mathlib.Data.List.Perm.Subperm
import Mathlib.Data.List.Sort

/-!
# Greedy filling in a sorted order

Elements are sorted with a comparison that may not tell all of them apart, and are then taken in
that order as long as they fit into a capacity; those that do not fit are passed over.
-/

namespace GreedyFill

/-- A strict weak order, as a comparison for sorting has to be. -/
structure StrictWeakOrder (comp : α → α → Bool) : Prop where
  irrefl : ∀ x, comp x x = false
  trans : ∀ x y z, comp x y = true → comp y z = true → comp x z = true
  incomp_trans : ∀ x y z, comp x y = false → comp y x = false →
    comp y z = false → comp z y = false → comp x z = false ∧ comp z x = false

/-- A sorting function: it keeps the elements, and none comes before one that it has to follow.
Where the comparison does not tell elements apart their order is its own. -/
structure Sorting (comp : α → α → Bool) where
  sort : List α → List α
  perm : ∀ elements, (sort elements).Perm elements
  sorted : ∀ elements, (sort elements).Pairwise fun first second => comp second first = false

namespace StrictWeakOrder

variable {comp : α → α → Bool}

/-- A comparison that asks for the larger of two keys. -/
theorem of_key
    [LinearOrder Key] {key : α → Key}
    (larger : ∀ x y, comp x y = true ↔ key y < key x) :
    StrictWeakOrder comp := by
  have smaller : ∀ x y, comp x y = false ↔ key x ≤ key y := by
    intro x y
    rw [← Bool.not_eq_true, larger, not_lt]
  refine { irrefl := ?_, trans := ?_, incomp_trans := ?_ }
  · intro x
    exact (smaller x x).mpr (le_refl _)
  · intro x y z first second
    exact (larger x z).mpr (lt_trans ((larger y z).mp second) ((larger x y).mp first))
  · intro x y z
    simp only [smaller]
    intro upFirst downFirst upSecond downSecond
    exact ⟨le_trans upFirst upSecond, le_trans downSecond downFirst⟩

theorem asymm (order : StrictWeakOrder comp) (x y : α) (before : comp x y = true) :
    comp y x = false := by
  rw [← Bool.not_eq_true]
  intro after
  have self := order.trans x y x before after
  rw [order.irrefl] at self
  cases self

/-- That an element need not follow another one carries over. -/
theorem not_before_trans
    (order : StrictWeakOrder comp)
    (x y z : α)
    (first : comp y x = false)
    (second : comp z y = false) :
    comp z x = false := by
  rw [← Bool.not_eq_true]
  intro before
  by_cases left : comp x y = true
  · rw [order.trans z x y before left] at second
    cases second
  · by_cases right : comp y z = true
    · rw [order.trans y z x right before] at first
      cases first
    · have tied := order.incomp_trans x y z (by simpa using left) first (by simpa using right)
        second
      rw [before] at tied
      cases tied.2

/-- Insertion sort is a sorting function. -/
def insertionSort (order : StrictWeakOrder comp) : Sorting comp where
  sort := List.insertionSort fun x y => comp y x = false
  perm := List.perm_insertionSort _
  sorted := by
    have total : Std.Total fun x y => comp y x = false :=
      ⟨fun x y => (Bool.eq_false_or_eq_true (comp x y)).elim
        (fun before => .inl (order.asymm x y before)) .inr⟩
    have trans : IsTrans α fun x y => comp y x = false := ⟨order.not_before_trans⟩
    exact List.pairwise_insertionSort _

end StrictWeakOrder

/-- Of two orders of the same elements in which none comes before one that it has to follow, there
is one only where the comparison tells all elements apart. -/
theorem sorted_unique
    {comp : α → α → Bool} {first second : List α}
    (perm : first.Perm second)
    (firstSorted : first.Pairwise fun x y => comp y x = false)
    (secondSorted : second.Pairwise fun x y => comp y x = false)
    (apart : ∀ x ∈ first, ∀ y ∈ first, comp x y = false → comp y x = false → x = y) :
    first = second := by
  apply perm.eq_of_pairwise _ firstSorted secondSorted
  intro x y xMember yMember below above
  exact apart x xMember y (perm.mem_iff.mpr yMember) above below

/-- The elements that are taken in their order, when so much of the capacity is used. -/
def fill (size : α → Int) (capacity : Int) : List α → Int → List α
  | [], _ => []
  | element :: rest, used =>
    if size element + used ≤ capacity then
      element :: fill size capacity rest (used + size element)
    else fill size capacity rest used

theorem fill_sublist (elements : List α) (used : Int) :
    (fill size capacity elements used).Sublist elements := by
  induction elements generalizing used with
  | nil => exact .slnil
  | cons element rest ih =>
    rw [fill]
    split_ifs
    · exact (ih _).cons_cons element
    · exact (ih _).cons element

theorem sum_fill_le
    (elements : List α)
    (fits : used ≤ capacity) :
    used + ((fill size capacity elements used).map size).sum ≤ capacity := by
  induction elements generalizing used with
  | nil => simpa [fill] using fits
  | cons element rest ih =>
    rw [fill]
    split_ifs with here
    · rw [List.map_cons, List.sum_cons]
      have later := ih (show used + size element ≤ capacity by omega)
      omega
    · exact ih fits

theorem fill_append (first second : List α) (used : Int) :
    fill size capacity (first ++ second) used =
      fill size capacity first used ++
        fill size capacity second (used + ((fill size capacity first used).map size).sum) := by
  induction first generalizing used with
  | nil => simp [fill]
  | cons element rest ih =>
    rw [List.cons_append, fill, fill]
    split_ifs
    · rw [ih, List.map_cons, List.sum_cons, List.cons_append, add_assoc]
    · exact ih used

/-- An element is taken exactly if it fits beside what is taken before it. -/
theorem mem_fill_iff
    (notBefore : element ∉ before)
    (notAfter : element ∉ after) :
    element ∈ fill size capacity (before ++ element :: after) used ↔
      used + ((fill size capacity before used).map size).sum + size element ≤ capacity := by
  have notFirst : element ∉ fill size capacity before used := fun member =>
    notBefore ((fill_sublist before used).subset member)
  have notSecond : ∀ more, element ∉ fill size capacity after more := fun more member =>
    notAfter ((fill_sublist after more).subset member)
  rw [fill_append, List.mem_append, or_iff_right notFirst, fill]
  split_ifs with fits
  · simp only [List.mem_cons_self, true_iff]
    omega
  · simp only [notSecond, false_iff]
    omega

end GreedyFill

/-!
## Selections in rounds

A state is taken through a list of rounds, each of which adds to the items of the state one of
a pool that is not among them yet.  As long as there are no more rounds than items in the pool,
no round fails, and the items are distinct.
-/

namespace SelectionRounds

variable {pool : List Item} {step : State → Round → Option State}

theorem exists_unselected
    {selected : List Item}
    (distinct : pool.Nodup)
    (fewer : selected.length < pool.length) :
    ∃ item ∈ pool, item ∉ selected := by
  by_contra none_left
  have among : pool ⊆ selected := by
    intro item present
    by_contra absent
    exact none_left ⟨item, present, absent⟩
  have atMost := (List.subperm_of_subset distinct among).length_le
  omega

/-- A round adds one new item of the pool while there is one. -/
def Draws (pool : List Item) (items : State → List Item)
    (step : State → Round → Option State) : Prop :=
  ∀ state round, (items state).Nodup → items state ⊆ pool →
    (items state).length < pool.length →
      ∃ next item, step state round = some next ∧ item ∈ pool ∧ item ∉ items state ∧
        items next = item :: items state

/-- No more rounds than the pool has items left all succeed, and each adds a new one. -/
theorem Draws.foldlM
    (draws : Draws pool items step)
    (rounds : List Round)
    (distinct : (items state).Nodup)
    (among : items state ⊆ pool)
    (room : (items state).length + rounds.length ≤ pool.length) :
    ∃ last, rounds.foldlM step state = some last ∧
      (items last).length = (items state).length + rounds.length ∧
      (items last).Nodup ∧ items last ⊆ pool := by
  induction rounds generalizing state with
  | nil => exact ⟨state, rfl, rfl, distinct, among⟩
  | cons round rounds ih =>
    rw [List.length_cons] at room
    obtain ⟨next, item, stepped, present, fresh, added⟩ :=
      draws state round distinct among (by omega)
    have distinct_next : (items next).Nodup := by
      rw [added]
      exact List.nodup_cons.mpr ⟨fresh, distinct⟩
    have among_next : items next ⊆ pool := by
      rw [added]
      exact List.cons_subset.mpr ⟨present, among⟩
    have length_next : (items next).length = (items state).length + 1 := by
      rw [added, List.length_cons]
    obtain ⟨last, run, length_last, distinct_last, among_last⟩ :=
      ih distinct_next among_next (by omega)
    refine ⟨last, ?_, ?_, distinct_last, among_last⟩
    · rw [List.foldlM_cons, stepped]
      exact run
    · rw [length_last, length_next, List.length_cons]
      omega

end SelectionRounds
