import Mathlib.Data.List.DropRight

/-!
# Lists without trailing blanks

A sparse array can be stored as a list whose blank entries at the end are
dropped.  This module gives the two operations such a store needs, blanking an
entry and writing one back, and shows that writing back what was blanked
restores the list exactly, whatever part of its end was dropped in between.
-/

namespace TrimmedList

variable (isBlank : α → Bool) (blank : α)

/-- Drop the blank entries at the end. -/
def trim (entries : List α) : List α :=
  entries.rdropWhile isBlank

/-- Write an entry at a position, growing the list with blanks to reach it. -/
def writeAt (entries : List α) (index : Nat) (value : α) : List α :=
  (if entries.length < index + 1 then
    entries ++ List.replicate (index + 1 - entries.length) blank
  else entries).set index value

variable {isBlank blank}

theorem trim_trim (entries : List α) :
    trim isBlank (trim isBlank entries) = trim isBlank entries :=
  List.rdropWhile_idempotent _ _

theorem trim_eq_nil_iff (entries : List α) :
    trim isBlank entries = [] ↔ ∀ value ∈ entries, isBlank value = true :=
  List.rdropWhile_eq_nil_iff

theorem trim_subset
    (present : value ∈ trim isBlank entries) :
    value ∈ entries :=
  (List.rdropWhile_prefix isBlank entries).subset present

theorem length_trim_le (entries : List α) :
    (trim isBlank entries).length ≤ entries.length :=
  (List.rdropWhile_prefix isBlank entries).length_le

theorem all_isBlank_trim (entries : List α) :
    (trim isBlank entries).all isBlank = entries.all isBlank := by
  have split : entries.rdropWhile isBlank ++ entries.rtakeWhile isBlank = entries :=
    List.rdropWhile_append_rtakeWhile
  have taken : (entries.rtakeWhile isBlank).all isBlank = true := by
    rw [List.all_eq_true]
    intro value present
    exact List.mem_rtakeWhile_imp present
  calc (entries.rdropWhile isBlank).all isBlank
      = (entries.rdropWhile isBlank ++ entries.rtakeWhile isBlank).all isBlank := by
        rw [List.all_append, taken, Bool.and_true]
    _ = entries.all isBlank := by rw [split]

/-- Trimming keeps every entry that is not blank in its place. -/
theorem getElem?_trim_of_not_blank
    {index : Nat}
    (atIndex : entries[index]? = some value)
    (notBlank : isBlank value = false) :
    (trim isBlank entries)[index]? = some value := by
  have split : trim isBlank entries ++ entries.rtakeWhile isBlank = entries :=
    List.rdropWhile_append_rtakeWhile
  rcases Nat.lt_or_ge index (trim isBlank entries).length with inFront | atEnd
  · calc (trim isBlank entries)[index]?
        = (trim isBlank entries ++ entries.rtakeWhile isBlank)[index]? :=
          (List.getElem?_append_left inFront).symm
      _ = some value := by rw [split, atIndex]
  · rw [← split, List.getElem?_append_right atEnd] at atIndex
    have blankValue := List.mem_rtakeWhile_imp (List.mem_of_getElem? atIndex)
    rw [notBlank] at blankValue
    cases blankValue

/-- What is left after trimming stands where it stood. -/
theorem getElem?_of_trim
    {index : Nat}
    (atIndex : (trim isBlank entries)[index]? = some value) :
    entries[index]? = some value := by
  obtain ⟨inFront, valueEq⟩ := List.getElem?_eq_some_iff.mp atIndex
  rw [← valueEq]
  exact List.prefix_iff_getElem?.mp (List.rdropWhile_prefix isBlank entries) index inFront

/-- When every blank is the same value, the dropped end can be put back. -/
theorem trim_append_replicate
    (uniform : ∀ value ∈ entries, isBlank value = true → value = blank) :
    trim isBlank entries ++ List.replicate (entries.length - (trim isBlank entries).length) blank =
      entries := by
  have split : entries.rdropWhile isBlank ++ entries.rtakeWhile isBlank = entries :=
    List.rdropWhile_append_rtakeWhile
  have lengths := congrArg List.length split
  rw [List.length_append] at lengths
  have taken : entries.rtakeWhile isBlank =
      List.replicate (entries.rtakeWhile isBlank).length blank := by
    rw [List.eq_replicate_iff]
    refine ⟨rfl, fun value present => uniform value ?_ ?_⟩
    · rw [← split]
      exact List.mem_append_right _ present
    · exact List.mem_rtakeWhile_imp present
  have count : entries.length - (trim isBlank entries).length =
      (entries.rtakeWhile isBlank).length := by
    unfold trim
    omega
  rw [count, ← taken]
  exact split

/-- Blank one entry of a trimmed list, trim, and write the entry back: the
original list returns. -/
theorem writeAt_trim_set
    (blankIsBlank : isBlank blank = true)
    (uniform : ∀ other ∈ entries, isBlank other = true → other = blank)
    (trimmed : trim isBlank entries = entries)
    (atIndex : entries[index]? = some value) :
    writeAt blank (trim isBlank (entries.set index blank)) index value =
      entries := by
  have bound : index < entries.length := (List.getElem?_eq_some_iff.mp atIndex).1
  have nonempty : entries ≠ [] := by
    intro empty
    simp [empty] at bound
  have lastNotBlank : ¬ isBlank (entries.getLast nonempty) = true :=
    List.rdropWhile_eq_self_iff.mp trimmed nonempty
  obtain ⟨front, last, rfl⟩ : ∃ front last, entries = front ++ [last] :=
    ⟨entries.dropLast, entries.getLast nonempty, (List.dropLast_append_getLast nonempty).symm⟩
  rw [List.getLast_append_singleton] at lastNotBlank
  rcases Nat.lt_or_ge index front.length with inFront | atEnd
  · have kept : (front ++ [last]).set index blank = front.set index blank ++ [last] :=
      List.set_append_left index blank inFront
    have reached : ¬ (front ++ [last]).length < index + 1 := by
      rw [List.length_append]
      omega
    have same : trim isBlank ((front ++ [last]).set index blank) =
        (front ++ [last]).set index blank := by
      rw [kept]
      exact List.rdropWhile_concat_neg _ _ _ lastNotBlank
    rw [same, writeAt, List.length_set, if_neg reached, List.set_set]
    have atIndex' : (front ++ [last])[index] = value := (List.getElem?_eq_some_iff.mp atIndex).2
    rw [← atIndex']
    exact List.set_getElem_self bound
  · have indexEq : index = front.length := by
      rw [List.length_append] at bound
      simp only [List.length_cons, List.length_nil] at bound
      omega
    subst indexEq
    have valueEq : last = value := by
      simpa using atIndex
    subst valueEq
    have dropped : trim isBlank ((front ++ [last]).set front.length blank) =
        trim isBlank front := by
      rw [List.set_append_right _ _ (Nat.le_refl _), Nat.sub_self]
      exact List.rdropWhile_concat_pos _ _ _ blankIsBlank
    have shorter : (trim isBlank front).length ≤ front.length := length_trim_le front
    have restored : trim isBlank front ++
          List.replicate (front.length - (trim isBlank front).length) blank = front :=
      trim_append_replicate fun other present =>
        uniform other (List.mem_append_left _ present)
    rw [dropped, writeAt, if_pos (by omega),
      show front.length + 1 - (trim isBlank front).length =
        (front.length - (trim isBlank front).length) + 1 by omega,
      List.replicate_succ', ← List.append_assoc, restored,
      List.set_append_right _ _ (Nat.le_refl _), Nat.sub_self]
    rfl

end TrimmedList
