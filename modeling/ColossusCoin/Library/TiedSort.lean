import Mathlib.Data.Finset.Max
import Mathlib.Data.List.Sort
import Mathlib.Data.Prod.Lex

/-!
# Sorting with ties

A sort by a key alone leaves elements with equal keys in an order of its own, which may
depend on the order it was given.  What is read off a sorted list is the same for every
order and every such sort exactly when ties make no difference to it: for the position of
each element, when no two keys are equal, and for the best of the first few, when one element
is among them and the best whatever the ties.
-/

namespace TiedSort

variable {α : Type*}

/-- A sort from high keys to low ones. -/
structure SortsDescending (key : α → Int) (sort : List α → List α) : Prop where
  perm : ∀ elements, (sort elements).Perm elements
  sorted : ∀ elements, (sort elements).Pairwise fun first second => key second ≤ key first

/-- The first of two elements may come before the second. -/
def Descends (key : α → Int) (first second : α) : Prop :=
  key second ≤ key first

instance (key : α → Int) : DecidableRel (Descends key) :=
  fun first second => inferInstanceAs (Decidable (key second ≤ key first))

instance (key : α → Int) : Std.Total (Descends key) :=
  ⟨fun first second => Int.le_total (key second) (key first)⟩

instance (key : α → Int) : IsTrans α (Descends key) :=
  ⟨fun _ _ _ earlier later => Int.le_trans later earlier⟩

/-- Insertion from the end: the sort of short lists. -/
def insertionSort (key : α → Int) (elements : List α) : List α :=
  elements.insertionSort (Descends key)

variable {key : α → Int} {sort : List α → List α} {elements rest pre post : List α} {c : α}

theorem sortsDescending_insertionSort (key : α → Int) :
    SortsDescending key (insertionSort key) where
  perm elements := List.perm_insertionSort (Descends key) elements
  sorted elements := List.pairwise_insertionSort (Descends key) elements

theorem ne_of_before
    (nodup : (pre ++ c :: post).Nodup)
    (before : x ∈ pre) :
    x ≠ c :=
  (List.nodup_append.mp nodup).2.2 x before c List.mem_cons_self

theorem ne_of_after
    (nodup : (pre ++ c :: post).Nodup)
    (after : x ∈ post) :
    x ≠ c := by
  rintro rfl
  exact (List.nodup_cons.mp (List.nodup_append.mp nodup).2.1).1 after

/-- A sort by a finer key. -/
theorem sortsDescending_of_finer
    (finer : ∀ first second, fine second ≤ fine first → key second ≤ key first) :
    SortsDescending key (insertionSort fine) where
  perm := (sortsDescending_insertionSort fine).perm
  sorted elements := ((sortsDescending_insertionSort fine).sorted elements).imp (finer _ _)

/-- How many elements have a higher key. -/
def countAbove (key : α → Int) (c : α) (elements : List α) : Nat :=
  elements.countP fun x => key c < key x

/-- How many elements have a key as high. -/
def countAsHigh (key : α → Int) (c : α) (elements : List α) : Nat :=
  elements.countP fun x => key c ≤ key x

theorem countAsHigh_split :
    countAsHigh key c (pre ++ c :: post) =
      countAsHigh key c pre + (countAsHigh key c post + 1) := by
  have itself : countAsHigh key c (c :: post) = countAsHigh key c post + 1 :=
    List.countP_cons_of_pos (decide_eq_true (Int.le_refl (key c)))
  rw [← itself]
  exact List.countP_append

theorem countAbove_split :
    countAbove key c (pre ++ c :: post) = countAbove key c pre + countAbove key c post := by
  have itself : countAbove key c (c :: post) = countAbove key c post := by
    refine List.countP_cons_of_neg ?_
    rw [decide_eq_true_iff]
    exact Int.lt_irrefl (key c)
  rw [← itself]
  exact List.countP_append

theorem countAsHigh_eq_add :
    countAsHigh key c elements =
      countAbove key c elements + elements.countP fun x => key x = key c := by
  induction elements with
  | nil => rfl
  | cons x rest ih =>
    unfold countAsHigh countAbove at ih ⊢
    simp only [List.countP_cons, ih, decide_eq_true_eq]
    split_ifs <;> omega

/-- Another element with the same key makes room for both orders. -/
theorem countAbove_lt_of_tie
    (isElement : c ∈ elements)
    (isOther : d ∈ elements)
    (apart : d ≠ c)
    (tie : key d = key c) :
    countAbove key c elements + 1 < countAsHigh key c elements := by
  have both : [c, d].Subperm elements :=
    List.subperm_of_subset (by simp [apart.symm]) (by simp [isElement, isOther])
  have ties := both.countP_le fun x => decide (key x = key c)
  have two : [c, d].countP (fun x => decide (key x = key c)) = 2 := by simp [tie]
  rw [countAsHigh_eq_add]
  omega

section Sorted

variable (sorted : (pre ++ c :: post).Pairwise fun first second => key second ≤ key first)

include sorted

theorem le_of_before (before : x ∈ pre) : key c ≤ key x :=
  (List.pairwise_append.mp sorted).2.2 x before c List.mem_cons_self

theorem le_of_after (after : x ∈ post) : key x ≤ key c :=
  List.rel_of_pairwise_cons (List.pairwise_append.mp sorted).2.1 after

theorem countAbove_eq :
    countAbove key c (pre ++ c :: post) = countAbove key c pre := by
  have after : countAbove key c post = 0 := by
    refine List.countP_eq_zero.mpr fun x member => ?_
    rw [decide_eq_true_iff]
    exact Int.not_lt.mpr (le_of_after sorted member)
  rw [countAbove_split, after, Nat.add_zero]

theorem countAsHigh_eq :
    countAsHigh key c (pre ++ c :: post) = pre.length + (countAsHigh key c post + 1) := by
  have before : countAsHigh key c pre = pre.length :=
    List.countP_eq_length.mpr fun x member => decide_eq_true (le_of_before sorted member)
  rw [countAsHigh_split, before]

/-- The elements before one in a sorted list include all that have a higher key. -/
theorem countAbove_le : countAbove key c (pre ++ c :: post) ≤ pre.length := by
  rw [countAbove_eq sorted]
  exact List.countP_le_length

/-- And with the element itself they are among those that have a key as high. -/
theorem length_lt_countAsHigh : pre.length < countAsHigh key c (pre ++ c :: post) := by
  rw [countAsHigh_eq sorted]
  omega

theorem length_of_above
    (above : ∀ x ∈ pre, key c < key x) :
    pre.length = countAbove key c (pre ++ c :: post) := by
  rw [countAbove_eq sorted]
  exact (List.countP_eq_length.mpr fun x member => decide_eq_true (above x member)).symm

theorem length_of_below
    (below : ∀ x ∈ post, key x < key c) :
    pre.length + 1 = countAsHigh key c (pre ++ c :: post) := by
  have after : countAsHigh key c post = 0 := by
    refine List.countP_eq_zero.mpr fun x member => ?_
    rw [decide_eq_true_iff]
    exact Int.not_le.mpr (below x member)
  rw [countAsHigh_eq sorted, after]

end Sorted

/-- Some sort puts an element before all others that have its key. -/
theorem exists_sort_first (key : α → Int) (c : α) :
    ∃ sort, SortsDescending key sort ∧ ∀ elements : List α, elements.Nodup → c ∈ elements →
      ∃ pre post, sort elements = pre ++ c :: post ∧ ∀ x ∈ pre, key c < key x := by
  classical
  let fine : α → Int := fun x => 2 * key x + if x = c then 1 else 0
  refine ⟨insertionSort fine, sortsDescending_of_finer ?_, fun elements nodup isElement => ?_⟩
  · intro first second le
    simp only [fine] at le
    split_ifs at le <;> omega
  · have sorts := sortsDescending_insertionSort fine
    have perm := sorts.perm elements
    obtain ⟨pre, post, split⟩ := List.append_of_mem (perm.mem_iff.mpr isElement)
    refine ⟨pre, post, split, fun x before => ?_⟩
    have apart := ne_of_before (split ▸ perm.nodup_iff.mpr nodup) before
    have higher := le_of_before (split ▸ sorts.sorted elements) before
    simp only [fine, if_true, if_neg apart] at higher
    omega

/-- Some sort puts an element after all others that have its key. -/
theorem exists_sort_last (key : α → Int) (c : α) :
    ∃ sort, SortsDescending key sort ∧ ∀ elements : List α, elements.Nodup → c ∈ elements →
      ∃ pre post, sort elements = pre ++ c :: post ∧ ∀ x ∈ post, key x < key c := by
  classical
  let fine : α → Int := fun x => 2 * key x - if x = c then 1 else 0
  refine ⟨insertionSort fine, sortsDescending_of_finer ?_, fun elements nodup isElement => ?_⟩
  · intro first second le
    simp only [fine] at le
    split_ifs at le <;> omega
  · have sorts := sortsDescending_insertionSort fine
    have perm := sorts.perm elements
    obtain ⟨pre, post, split⟩ := List.append_of_mem (perm.mem_iff.mpr isElement)
    refine ⟨pre, post, split, fun x after => ?_⟩
    have apart := ne_of_after (split ▸ perm.nodup_iff.mpr nodup) after
    have lower := le_of_after (split ▸ sorts.sorted elements) after
    simp only [fine, if_true, if_neg apart] at lower
    omega

/-- Where every sort tells the same of every order of some items, two sorts do: one sort can do
what the first does of one order, and what the second does of another. -/
theorem exists_agreeing
    (read : List α → β)
    (nodup : (items.filterMap image).Nodup)
    (firstSorts : SortsDescending key first)
    (lastSorts : SortsDescending key last)
    (determined : ∀ sort, SortsDescending key sort → ∀ other : List γ, other.Perm items →
      read (sort (other.filterMap image)) = read (sort (items.filterMap image))) :
    ∃ other : List α, other.Perm (items.filterMap image) ∧
      read (last other) = read (first (items.filterMap image)) := by
  classical
  generalize isElements : items.filterMap image = elements at nodup determined ⊢
  have turned : (items.reverse).filterMap image = elements.reverse := by
    rw [List.filterMap_reverse, isElements]
  by_cases same : elements.reverse = elements
  · refine ⟨elements, List.Perm.refl _, congrArg read ?_⟩
    have few : elements = [] ∨ ∃ x, elements = [x] := by
      cases elements with
      | nil => exact Or.inl rfl
      | cons x rest =>
        refine Or.inr ⟨x, congrArg (x :: ·) ?_⟩
        cases backwards : rest.reverse with
        | nil => exact List.reverse_eq_nil_iff.mp backwards
        | cons y more =>
          rw [List.reverse_cons, backwards, List.cons_append, List.cons.injEq] at same
          have again : x ∈ rest.reverse := backwards ▸ same.1 ▸ List.mem_cons_self
          exact absurd (List.mem_reverse.mp again) (List.nodup_cons.mp nodup).1
    have firstPerm := firstSorts.perm elements
    have lastPerm := lastSorts.perm elements
    rcases few with rfl | ⟨x, rfl⟩
    · rw [List.perm_nil.mp firstPerm, List.perm_nil.mp lastPerm]
    · rw [List.perm_singleton.mp firstPerm, List.perm_singleton.mp lastPerm]
  · have sorts : SortsDescending key fun list =>
        if list = elements then first list else last list := by
      constructor <;> intro list <;> split_ifs
      exacts [firstSorts.perm list, lastSorts.perm list, firstSorts.sorted list,
        lastSorts.sorted list]
    have agree := determined _ sorts items.reverse (List.reverse_perm items)
    rw [turned, if_neg same, if_pos rfl] at agree
    exact ⟨elements.reverse, List.reverse_perm elements, agree⟩

/-- The position, from one, of the first element that is asked for. -/
def position (isIt : α → Bool) : Int → List α → Int
  | _, [] => -1
  | rank, x :: rest => if isIt x then rank + 1 else position isIt (rank + 1) rest

theorem position_split
    {isIt : α → Bool} {rank : Int}
    (isItself : isIt c = true)
    (others : ∀ x ∈ pre, isIt x = false) :
    position isIt rank (pre ++ c :: post) = rank + pre.length + 1 := by
  induction pre generalizing rank with
  | nil =>
    rw [List.nil_append, position, if_pos isItself, List.length_nil]
    omega
  | cons x pre ih =>
    have skipped : ¬isIt x = true := by
      rw [others x List.mem_cons_self]
      exact Bool.false_ne_true
    rw [List.cons_append, position, if_neg skipped,
      ih fun y member => others y (List.mem_cons_of_mem x member),
      List.length_cons]
    omega

theorem position_absent
    (others : ∀ x ∈ elements, isIt x = false) :
    position isIt rank elements = -1 := by
  induction elements generalizing rank with
  | nil => rfl
  | cons x rest ih =>
    have skipped : ¬isIt x = true := by
      rw [others x List.mem_cons_self]
      exact Bool.false_ne_true
    rw [position, if_neg skipped]
    exact ih fun y member => others y (List.mem_cons_of_mem x member)

/-- The element at a position, from one. -/
def atPosition (wanted : Int) : Int → List α → Option α
  | _, [] => none
  | rank, x :: rest =>
    if rank + 1 = wanted then some x else atPosition wanted (rank + 1) rest

theorem atPosition_split
    {rank : Int} :
    atPosition (rank + pre.length + 1) rank (pre ++ c :: post) = some c := by
  induction pre generalizing rank with
  | nil =>
    rw [List.nil_append, atPosition, if_pos]
    rw [List.length_nil]
    omega
  | cons x pre ih =>
    have later : ¬rank + 1 = rank + (x :: pre).length + 1 := by
      rw [List.length_cons]
      omega
    have same : rank + ((x :: pre).length : Int) + 1 = (rank + 1) + pre.length + 1 := by
      rw [List.length_cons]
      omega
    rw [List.cons_append, atPosition, if_neg later, same]
    exact ih

theorem split_of_atPosition
    (here : atPosition wanted rank elements = some c) :
    ∃ pre post, elements = pre ++ c :: post ∧ wanted = rank + pre.length + 1 := by
  induction elements generalizing rank with
  | nil => cases here
  | cons x rest ih =>
    rw [atPosition] at here
    split_ifs at here with found
    · cases here
      refine ⟨[], rest, rfl, ?_⟩
      rw [List.length_nil]
      omega
    · obtain ⟨pre, post, split, place⟩ := ih here
      refine ⟨x :: pre, post, congrArg (x :: ·) split, ?_⟩
      rw [List.length_cons]
      omega

section Positions

variable {κ γ : Type*} [DecidableEq κ] {label : α → κ}

/-- The position of an element in a sorted list is one more than the number of those before
it. -/
theorem position_of_split
    (labels : ((pre ++ c :: post).map label).Nodup) :
    position (fun x => label x = label c) 0 (pre ++ c :: post) = pre.length + 1 := by
  have others : ∀ x ∈ pre, decide (label x = label c) = false := by
    intro x before
    rw [decide_eq_false_iff_not]
    intro same
    rw [List.map_append, List.map_cons] at labels
    exact ne_of_before labels (List.mem_map_of_mem before) same
  have itself : decide (label c = label c) = true := decide_eq_true rfl
  have found := @position_split _ pre post c (fun x => label x = label c) 0 itself others
  rw [found, Int.zero_add]

section

variable (labels : (elements.map label).Nodup)
include labels

/-- An element stands behind those with a higher key where all before it have one. -/
theorem position_of_above
    (sorts : SortsDescending key sort)
    (split : sort elements = pre ++ c :: post)
    (above : ∀ x ∈ pre, key c < key x) :
    position (fun x => label x = label c) 0 (sort elements) = countAbove key c elements + 1 := by
  have perm := sorts.perm elements
  have count : countAbove key c (sort elements) = countAbove key c elements := perm.countP_eq _
  have sortedLabels := (perm.map label).nodup_iff.mpr labels
  have sorted := sorts.sorted elements
  rw [split] at sortedLabels sorted count ⊢
  rw [position_of_split sortedLabels, length_of_above sorted above, count]

theorem position_of_below
    (sorts : SortsDescending key sort)
    (split : sort elements = pre ++ c :: post)
    (below : ∀ x ∈ post, key x < key c) :
    position (fun x => label x = label c) 0 (sort elements) = countAsHigh key c elements := by
  have perm := sorts.perm elements
  have count : countAsHigh key c (sort elements) = countAsHigh key c elements := perm.countP_eq _
  have sortedLabels := (perm.map label).nodup_iff.mpr labels
  have sorted := sorts.sorted elements
  rw [split] at sortedLabels sorted count ⊢
  rw [position_of_split sortedLabels, ← count, ← length_of_below sorted below]
  rfl

/-- Where no two keys are equal, an element stands behind those with a higher key. -/
theorem position_of_distinct
    (keys : (elements.map key).Nodup)
    (sorts : SortsDescending key sort)
    (isElement : c ∈ elements) :
    position (fun x => label x = label c) 0 (sort elements) = countAbove key c elements + 1 := by
  have perm := sorts.perm elements
  have sorted := sorts.sorted elements
  obtain ⟨pre, post, split⟩ := List.append_of_mem (perm.mem_iff.mpr isElement)
  have sortedKeys := (perm.map key).nodup_iff.mpr keys
  refine position_of_above labels sorts split fun x before => ?_
  rw [split] at sorted sortedKeys
  refine lt_of_le_of_ne (le_of_before sorted before) fun same => ?_
  rw [List.map_append, List.map_cons] at sortedKeys
  exact ne_of_before sortedKeys (List.mem_map_of_mem before) same.symm

end

variable {image : γ → Option α} {items : List γ}

/-- Every element has the same position, whatever the order that is given and the sort, if
and only if no two keys are equal. -/
theorem position_determined_iff
    (labels : ((items.filterMap image).map label).Nodup) :
    (∀ sort, SortsDescending key sort → ∀ other : List γ, other.Perm items → ∀ wanted : κ,
        position (fun x => label x = wanted) 0 (sort (other.filterMap image)) =
          position (fun x => label x = wanted) 0 (sort (items.filterMap image))) ↔
      ((items.filterMap image).map key).Nodup := by
  constructor
  · intro determined
    rw [List.nodup_map_iff_inj_on labels.of_map]
    intro c isElement d isOther tie
    by_contra apart
    obtain ⟨first, firstSorts, isFirst⟩ := exists_sort_first key c
    obtain ⟨last, lastSorts, isLast⟩ := exists_sort_last key c
    obtain ⟨other, perm, same⟩ := exists_agreeing _ labels.of_map firstSorts lastSorts
      fun sort sorts other perm => determined sort sorts other perm (label c)
    obtain ⟨pre, post, split, above⟩ := isFirst _ labels.of_map isElement
    have otherLabels := (perm.map label).nodup_iff.mpr labels
    obtain ⟨before, after, splitLast, below⟩ :=
      isLast other otherLabels.of_map (perm.mem_iff.mpr isElement)
    have count : countAsHigh key c other = countAsHigh key c (items.filterMap image) :=
      perm.countP_eq _
    have room := countAbove_lt_of_tie isElement isOther (Ne.symm apart) tie.symm
    rw [position_of_above labels firstSorts split above,
      position_of_below otherLabels lastSorts splitLast below, count] at same
    omega
  · intro keys sort sorts other perm wanted
    have images := perm.filterMap image
    by_cases listed : ∃ c ∈ items.filterMap image, label c = wanted
    · obtain ⟨c, isElement, rfl⟩ := listed
      have here := position_of_distinct labels keys sorts isElement
      have there := position_of_distinct ((images.map label).nodup_iff.mpr labels)
        ((images.map key).nodup_iff.mpr keys) sorts (images.mem_iff.mpr isElement)
      have count : countAbove key c (other.filterMap image) =
          countAbove key c (items.filterMap image) :=
        images.countP_eq _
      rw [here, there, count]
    · have absent : ∀ elements, elements.Perm (items.filterMap image) →
          position (fun x => label x = wanted) 0 (sort elements) = -1 := by
        intro elements among
        refine position_absent fun x member => ?_
        rw [decide_eq_false_iff_not]
        intro same
        exact listed ⟨x, among.mem_iff.mp ((sorts.perm elements).mem_iff.mp member), same⟩
      rw [absent _ images, absent _ (List.Perm.refl _)]

end Positions

/-! ## The best of the first few -/

/-- The first of the elements with the highest score, above one to beat. -/
def pickBest (score : α → Nat) : Nat → Option α → List α → Option α
  | _, best, [] => best
  | nHigh, best, x :: rest =>
    if nHigh < score x then pickBest score (score x) (some x) rest
    else pickBest score nHigh best rest

section Picks

variable {score : α → Nat} {nHigh k : Nat} {best : Option α}

theorem pickBest_of_le
    (low : ∀ x ∈ elements, score x ≤ nHigh) :
    pickBest score nHigh best elements = best := by
  induction elements with
  | nil => rfl
  | cons x rest ih =>
    rw [pickBest, if_neg (Nat.not_lt.mpr (low x List.mem_cons_self))]
    exact ih fun y member => low y (List.mem_cons_of_mem x member)

theorem pickBest_of_split
    (high : nHigh < score c)
    (before : ∀ x ∈ pre, score x < score c)
    (after : ∀ x ∈ post, score x ≤ score c) :
    pickBest score nHigh best (pre ++ c :: post) = some c := by
  induction pre generalizing nHigh best with
  | nil =>
    rw [List.nil_append, pickBest, if_pos high]
    exact pickBest_of_le after
  | cons x pre ih =>
    have rest : ∀ y ∈ pre, score y < score c := fun y member =>
      before y (List.mem_cons_of_mem x member)
    rw [List.cons_append, pickBest]
    split_ifs
    · exact ih (before x List.mem_cons_self) rest
    · exact ih high rest

theorem mem_of_pickBest
    (picked : pickBest score nHigh best elements = some c) :
    best = some c ∨ c ∈ elements := by
  induction elements generalizing nHigh best with
  | nil => exact Or.inl picked
  | cons x rest ih =>
    rw [pickBest] at picked
    split_ifs at picked
    · rcases ih picked with itself | later
      · exact Or.inr (Option.some.inj itself ▸ List.mem_cons_self)
      · exact Or.inr (List.mem_cons_of_mem x later)
    · exact (ih picked).imp_right (List.mem_cons_of_mem x)

theorem lt_of_pickBest
    (picked : pickBest score nHigh best elements = some c)
    (new : best ≠ some c) :
    nHigh < score c := by
  induction elements generalizing nHigh best with
  | nil => exact absurd picked new
  | cons x rest ih =>
    rw [pickBest] at picked
    split_ifs at picked with higher
    · by_cases itself : x = c
      · exact itself ▸ higher
      · refine Nat.lt_trans higher (ih picked ?_)
        exact fun same => itself (Option.some.inj same)
    · exact ih picked new

theorem before_lt_of_pickBest
    (nodup : (pre ++ c :: post).Nodup)
    (new : best ≠ some c)
    (picked : pickBest score nHigh best (pre ++ c :: post) = some c) :
    ∀ x ∈ pre, score x < score c := by
  induction pre generalizing nHigh best with
  | nil => exact fun x member => absurd member List.not_mem_nil
  | cons y pre ih =>
    rw [List.cons_append] at nodup
    obtain ⟨absent, restNodup⟩ := List.nodup_cons.mp nodup
    have apart : some y ≠ some c := by
      intro same
      refine absent ?_
      rw [Option.some.inj same]
      exact List.mem_append_right pre List.mem_cons_self
    rw [List.cons_append, pickBest] at picked
    intro x member
    split_ifs at picked with higher
    · rcases List.mem_cons.mp member with rfl | later
      · exact lt_of_pickBest picked apart
      · exact ih restNodup apart picked x later
    · rcases List.mem_cons.mp member with rfl | later
      · exact Nat.lt_of_le_of_lt (Nat.not_lt.mp higher) (lt_of_pickBest picked new)
      · exact ih restNodup new picked x later

/-- Some order of the ties puts the element among the first. -/
def IsContender (key : α → Int) (k : Nat) (elements : List α) (c : α) : Prop :=
  c ∈ elements ∧ countAbove key c elements < k

/-- The best of the first does not depend on ties: no contender scores, or one element is
among the first in every order and beats all contenders, by its key where their scores are
equal. -/
def Decided (key : α → Int) (score : α → Nat) (k : Nat) (elements : List α) : Prop :=
  (∀ c, IsContender key k elements c → score c = 0) ∨
    ∃ w ∈ elements, countAsHigh key w elements ≤ k ∧
      ∀ c, IsContender key k elements c → c ≠ w →
        score c < score w ∨ score c = score w ∧ key c < key w

theorem take_split
    (short : pre.length < k) :
    (pre ++ c :: post).take k = pre ++ c :: post.take (k - pre.length - 1) := by
  have room : k - pre.length = (k - pre.length - 1) + 1 := by omega
  rw [List.take_append, List.take_of_length_le (Nat.le_of_lt short), room, List.take_succ_cons]
  rfl

theorem isContender_of_mem_take
    {sortedList : List α}
    (perm : sortedList.Perm elements)
    (sorted : sortedList.Pairwise fun first second => key second ≤ key first)
    {x : α}
    (member : x ∈ sortedList.take k) :
    IsContender key k elements x := by
  refine And.intro (perm.mem_iff.mp (List.mem_of_mem_take member)) ?_
  obtain ⟨pre, post, split⟩ := List.append_of_mem member
  have whole : sortedList = pre ++ x :: (post ++ sortedList.drop k) := by
    rw [← List.cons_append, ← List.append_assoc, ← split, List.take_append_drop]
  have short : pre.length < k := by
    have bound := List.length_take_le k sortedList
    rw [split, List.length_append, List.length_cons] at bound
    omega
  have count : countAbove key x sortedList = countAbove key x elements := perm.countP_eq _
  rw [← count, whole]
  exact Nat.lt_of_le_of_lt (countAbove_le (whole ▸ sorted)) short

theorem pickBest_of_decided
    (nodup : elements.Nodup)
    (decided : Decided key score k elements) :
    ∃ result, ∀ sortedList : List α, sortedList.Perm elements →
      (sortedList.Pairwise fun first second => key second ≤ key first) →
        pickBest score 0 none (sortedList.take k) = result := by
  by_cases scoreless : ∀ c, IsContender key k elements c → score c = 0
  · refine ⟨none, fun sortedList perm sorted => pickBest_of_le fun x member => ?_⟩
    exact Nat.le_of_eq (scoreless x (isContender_of_mem_take perm sorted member))
  · obtain ⟨w, isElement, certain, beats⟩ := decided.resolve_left scoreless
    have scores : 0 < score w := by
      by_contra none_left
      refine scoreless fun c contender => ?_
      by_cases itself : c = w
      · rw [itself]
        omega
      · have beaten := beats c contender itself
        omega
    refine ⟨some w, fun sortedList perm sorted => ?_⟩
    obtain ⟨pre, post, split⟩ := List.append_of_mem (perm.mem_iff.mpr isElement)
    have count : countAsHigh key w sortedList = countAsHigh key w elements := perm.countP_eq _
    have whole := split ▸ sorted
    have wholeNodup : (pre ++ w :: post).Nodup := split ▸ perm.nodup_iff.mpr nodup
    have short : pre.length < k := by
      have bound := length_lt_countAsHigh whole
      rw [← split, count] at bound
      omega
    have among : ∀ x ∈ (pre ++ w :: post).take k, IsContender key k elements x :=
      fun x member => isContender_of_mem_take perm sorted (split ▸ member)
    rw [split]
    rw [take_split short] at among ⊢
    refine pickBest_of_split scores ?_ ?_
    · intro x before
      have apart := ne_of_before wholeNodup before
      have high := le_of_before whole before
      have beaten := beats x (among x (List.mem_append_left _ before)) apart
      omega
    · intro x after
      by_cases itself : x = w
      · exact Nat.le_of_eq (congrArg score itself)
      · have contender := among x (List.mem_append_right pre (List.mem_cons_of_mem w after))
        have beaten := beats x contender itself
        omega

theorem exists_best
    [DecidableEq α]
    (someContender : ∃ c, IsContender key k elements c) :
    ∃ w, IsContender key k elements w ∧ ∀ c, IsContender key k elements c →
      score c < score w ∨ score c = score w ∧ key c ≤ key w := by
  obtain ⟨c, contender⟩ := someContender
  let contenders := elements.toFinset.filter fun x => countAbove key x elements < k
  have isIn : ∀ x, x ∈ contenders ↔ IsContender key k elements x := by
    intro x
    rw [Finset.mem_filter, List.mem_toFinset]
    rfl
  obtain ⟨w, member, best⟩ := contenders.exists_max_image
    (fun x => toLex (score x, key x)) ⟨c, (isIn c).mpr contender⟩
  refine ⟨w, (isIn w).mp member, fun x among => ?_⟩
  exact Prod.Lex.toLex_le_toLex.mp (best x ((isIn x).mpr among))

section Placed

variable {w : α} (perm : (pre ++ w :: post).Perm elements)
  (sorted : (pre ++ w :: post).Pairwise fun first second => key second ≤ key first)
  (contender : IsContender key k elements w)
  (unbeaten : ∀ c, IsContender key k elements c →
    score c < score w ∨ score c = score w ∧ key c ≤ key w)

include perm sorted contender unbeaten

theorem pickBest_first
    (scores : 0 < score w)
    (above : ∀ x ∈ pre, key w < key x) :
    pickBest score 0 none ((pre ++ w :: post).take k) = some w := by
  have among := fun x => @isContender_of_mem_take _ key _ k _ perm sorted x
  have count : countAbove key w (pre ++ w :: post) = countAbove key w elements := perm.countP_eq _
  have short : pre.length < k := by
    rw [length_of_above sorted above, count]
    exact contender.2
  rw [take_split short] at among ⊢
  refine pickBest_of_split scores ?_ ?_
  · intro x before
    have beaten := unbeaten x (among x (List.mem_append_left _ before))
    have higher := above x before
    omega
  · intro x after
    have beaten := unbeaten x (among x (List.mem_append_right pre (List.mem_cons_of_mem w after)))
    omega

/-- Picked behind all others with its key, an element is among the first in every order and
beats the contenders. -/
theorem decided_of_last
    (nodup : elements.Nodup)
    (below : ∀ x ∈ post, key x < key w)
    (pick : pickBest score 0 none ((pre ++ w :: post).take k) = some w) :
    Decided key score k elements := by
  have count : countAsHigh key w (pre ++ w :: post) = countAsHigh key w elements := perm.countP_eq _
  have sortedNodup := perm.nodup_iff.mpr nodup
  have short : pre.length < k := by
    by_contra long
    rw [List.take_append_of_le_length (Nat.not_lt.mp long)] at pick
    have early : w ∈ pre := List.mem_of_mem_take ((mem_of_pickBest pick).resolve_left nofun)
    exact ne_of_before sortedNodup early rfl
  refine Or.inr ⟨w, contender.1, ?_, ?_⟩
  · rw [← count, ← length_of_below sorted below]
    omega
  · intro c among apart
    rcases unbeaten c among with less | ⟨sameScore, notAbove⟩
    · exact Or.inl less
    · refine Or.inr (And.intro sameScore (lt_of_le_of_ne notAbove ?_))
      intro sameKey
      have listed := perm.mem_iff.mpr among.1
      rcases List.mem_append.mp listed with before | late
      · have takenNodup := List.Sublist.nodup (List.take_sublist k _) sortedNodup
        rw [take_split short] at pick takenNodup
        have new : (none : Option α) ≠ some w := nofun
        have lower := before_lt_of_pickBest takenNodup new pick c before
        omega
      · rcases List.mem_cons.mp late with itself | after
        · exact apart itself
        · have lower := below c after
          omega

end Placed

variable {γ : Type*} {image : γ → Option α} {items : List γ}

variable [DecidableEq α]

/-- The best of the first few is the same, whatever the order that is given and the sort, if
and only if it is decided. -/
theorem pick_determined_iff
    (nodup : (items.filterMap image).Nodup) :
    (∀ sort, SortsDescending key sort → ∀ other : List γ, other.Perm items →
        pickBest score 0 none ((sort (other.filterMap image)).take k) =
          pickBest score 0 none ((sort (items.filterMap image)).take k)) ↔
      Decided key score k (items.filterMap image) := by
  constructor
  · intro determined
    by_cases scoreless : ∀ c, IsContender key k (items.filterMap image) c → score c = 0
    · exact Or.inl scoreless
    · push Not at scoreless
      obtain ⟨c, among, scores⟩ := scoreless
      obtain ⟨w, contender, best⟩ := @exists_best _ key _ score k _ ⟨c, among⟩
      have positive : 0 < score w := by
        have beaten := best c among
        omega
      obtain ⟨first, firstSorts, isFirst⟩ := exists_sort_first key w
      obtain ⟨last, lastSorts, isLast⟩ := exists_sort_last key w
      obtain ⟨other, perm, same⟩ := exists_agreeing
        (fun sorted => pickBest score 0 none (sorted.take k)) nodup firstSorts lastSorts determined
      obtain ⟨pre, post, split, above⟩ := isFirst _ nodup contender.1
      obtain ⟨before, after, splitLast, below⟩ :=
        isLast other (perm.nodup_iff.mpr nodup) (perm.mem_iff.mpr contender.1)
      have placed := lastSorts.perm other
      have sorted := lastSorts.sorted other
      rw [splitLast] at placed sorted same
      refine decided_of_last (placed.trans perm) sorted contender best nodup below (same.trans ?_)
      rw [split]
      exact pickBest_first (split ▸ firstSorts.perm _) (split ▸ firstSorts.sorted _) contender
        best positive above
  · intro decided sort sorts other perm
    obtain ⟨result, always⟩ := pickBest_of_decided nodup decided
    have images := perm.filterMap image
    rw [always _ ((sorts.perm _).trans images) (sorts.sorted _),
      always _ (sorts.perm _) (sorts.sorted _)]

end Picks

end TiedSort
