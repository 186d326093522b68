import Mathlib.Algebra.BigOperators.Group.List.Basic
import Mathlib.Algebra.Order.Ring.Nat

/-!
# Ranges that fill a file

Ranges of a file that are handed out one after the other, each at the end of the last one, fill the
file from its start.  They are apart, and their end is where the next one begins.
-/

namespace FilledRanges

/-- A range of positions. -/
structure Range where
  start : Nat
  length : Nat
  deriving DecidableEq, Repr

/-- The position after a range. -/
def Range.finish (range : Range) : Nat := range.start + range.length

/-- Two ranges have no position in common. -/
def Range.Apart (first second : Range) : Prop :=
  first.finish ≤ second.start ∨ second.finish ≤ first.start

instance (first second : Range) : Decidable (first.Apart second) :=
  inferInstanceAs (Decidable (_ ∨ _))

/-- The ranges fill a file up to a size. -/
inductive Filled : List Range → Nat → Prop
  | nil : Filled [] 0
  | snoc {ranges : List Range} {size : Nat} (length : Nat) :
      Filled ranges size → Filled (ranges ++ [⟨size, length⟩]) (size + length)

/-- The end of the last range. -/
def lastFinish (ranges : List Range) : Nat :=
  match ranges.getLast? with
  | none => 0
  | some range => range.finish

theorem Filled.lastFinish_eq (filled : Filled ranges size) : lastFinish ranges = size := by
  cases filled with
  | nil => rfl
  | snoc length filled =>
    rw [lastFinish, List.getLast?_append, List.getLast?_singleton]
    rfl

theorem Filled.finish_le
    (filled : Filled ranges size)
    (member : range ∈ ranges) :
    range.finish ≤ size := by
  induction filled with
  | nil => cases member
  | snoc length _ ih =>
    rcases List.mem_append.mp member with earlier | last
    · exact Nat.le_trans (ih earlier) (Nat.le_add_right _ _)
    · rw [List.mem_singleton.mp last]
      exact Nat.le_refl _

/-- Each range begins where those before it have ended. -/
theorem Filled.pairwise_apart (filled : Filled ranges size) : ranges.Pairwise Range.Apart := by
  induction filled with
  | nil => exact .nil
  | snoc length filled ih =>
    refine List.pairwise_append.mpr ⟨ih, List.pairwise_singleton _ _, ?_⟩
    intro range earlier last isLast
    rw [List.mem_singleton.mp isLast]
    exact Or.inl (filled.finish_le earlier)

theorem Filled.size_eq (filled : Filled ranges size) : size = (ranges.map Range.length).sum := by
  induction filled with
  | nil => rfl
  | snoc length _ ih =>
    rw [List.map_append, List.sum_append, ← ih, List.map_singleton, List.sum_singleton]

end FilledRanges
