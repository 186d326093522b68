import Mathlib.Logic.Basic

/-!
# Undoing steps that may lose information

A step leads from one state to another, and an action on traces of the later
state is meant to lead back.  A trace is good or bad for a state.  The action
undoes the step under a condition: it then takes good traces to good ones, it
spoils them otherwise, and it never mends a bad trace.  Such steps compose, the
conditions being conjoined, so that over a whole run the last trace is good
exactly when every step met its condition.
-/

/-- The action takes traces of the later state back to the earlier one, exactly
under the condition. -/
structure Undoes (Good Bad : State → Trace → Prop) (before after : State)
    (act : Trace → Trace) (condition : Prop) : Prop where
  restores : ∀ trace, Good after trace → condition → Good before (act trace)
  spoils : ∀ trace, Good after trace → ¬condition → Bad before (act trace)
  stays : ∀ trace, Bad after trace → Bad before (act trace)

namespace Undoes

theorem refl (state : State) : Undoes Good Bad state state id True where
  restores := fun _ good _ => good
  spoils := fun _ _ impossible => absurd trivial impossible
  stays := fun _ => id

/-- Steps in a row are undone by their actions in reverse order. -/
theorem comp
    (undoesFirst : Undoes Good Bad first second undoFirst firstCondition)
    (undoesSecond : Undoes Good Bad second third undoSecond secondCondition) :
    Undoes Good Bad first third (undoFirst ∘ undoSecond) (firstCondition ∧ secondCondition) where
  restores := fun trace good conditions =>
    undoesFirst.restores _ (undoesSecond.restores trace good conditions.2) conditions.1
  spoils := by
    intro trace good fails
    by_cases secondHolds : secondCondition
    · refine undoesFirst.spoils _ (undoesSecond.restores trace good secondHolds) ?_
      exact fun firstHolds => fails ⟨firstHolds, secondHolds⟩
    · exact undoesFirst.stays _ (undoesSecond.spoils trace good secondHolds)
  stays := fun trace bad => undoesFirst.stays _ (undoesSecond.stays trace bad)

theorem congr
    (undoes : Undoes Good Bad before after act condition)
    (equal : ∀ trace, other trace = act trace) :
    Undoes Good Bad before after other condition where
  restores := fun trace good holds => equal trace ▸ undoes.restores trace good holds
  spoils := fun trace good fails => equal trace ▸ undoes.spoils trace good fails
  stays := fun trace bad => equal trace ▸ undoes.stays trace bad

theorem of_iff
    (undoes : Undoes Good Bad before after act condition)
    (equivalent : other ↔ condition) :
    Undoes Good Bad before after act other where
  restores := fun trace good holds =>
    undoes.restores trace good (equivalent.mp holds)
  spoils := fun trace good fails =>
    undoes.spoils trace good fun holds => fails (equivalent.mpr holds)
  stays := undoes.stays

/-- From a good trace the action leads to a good one exactly under the
condition. -/
theorem good_iff
    (undoes : Undoes Good Bad before after act condition)
    (exclusive : ∀ state trace, Good state trace → ¬Bad state trace)
    (good : Good after trace) :
    Good before (act trace) ↔ condition := by
  constructor
  · intro restored
    refine Classical.byContradiction fun fails => ?_
    exact exclusive _ _ restored (undoes.spoils trace good fails)
  · exact undoes.restores trace good

end Undoes
