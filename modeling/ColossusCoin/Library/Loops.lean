import Mathlib.Data.Option.Basic
import Mathlib.Order.Basic
import Mathlib.Tactic.Common

/-!
# Loops with fuel

A loop that may run forever is given fuel, and fails when it runs out.  A computation with fuel
ends when all fuel from some amount on gives it the same result.  What is shown of the result is
put together along sequences of computations, folds and loops with an invariant.
-/

namespace Loops

universe u

/-- `do … while`: the body is run once, and again as long as the condition holds after it. -/
def doWhile (body : σ → σ) (again : σ → Bool) : Nat → σ → Option σ
  | 0, _ => none
  | fuel + 1, state =>
    if again (body state) then doWhile body again fuel (body state) else some (body state)

/-- All fuel from some amount on gives the result. -/
def Ends (compute : Nat → Option τ) (result : τ) : Prop :=
  ∃ enough, ∀ fuel, enough ≤ fuel → compute fuel = some result

/-- The computation ends with a result that has the property. -/
def Yields (compute : Nat → Option τ) (property : τ → Prop) : Prop :=
  ∃ result, Ends compute result ∧ property result

/-- One round is enough. -/
theorem ends_of_succ
    (gives : ∀ fuel, compute (fuel + 1) = some result) :
    Ends compute result := by
  refine ⟨1, fun fuel above => ?_⟩
  obtain ⟨less, rfl⟩ := Nat.exists_eq_add_of_le' above
  exact gives less

/-- One round more. -/
theorem Ends.succ
    (ends : Ends compute result)
    (round : ∀ fuel, compute fuel = some result → longer (fuel + 1) = some last) :
    Ends longer last := by
  obtain ⟨enough, gives⟩ := ends
  refine ⟨enough + 1, fun fuel above => ?_⟩
  obtain ⟨less, rfl⟩ := Nat.exists_eq_add_one_of_ne_zero
    (Nat.ne_of_gt (Nat.lt_of_lt_of_le (Nat.succ_pos enough) above))
  exact round less (gives less (Nat.le_of_succ_le_succ above))

theorem ends_some (result : τ) : Ends (fun _ => some result) result := ⟨0, fun _ _ => rfl⟩

/-- There is one result. -/
theorem Ends.unique
    (one : Ends compute first)
    (other : Ends compute second) :
    first = second := by
  obtain ⟨enough, gives⟩ := one
  obtain ⟨plenty, gives'⟩ := other
  have here := gives (max enough plenty) (Nat.le_max_left _ _)
  rw [gives' _ (Nat.le_max_right _ _)] at here
  exact (Option.some.inj here).symm

theorem Ends.bind
    {compute : Nat → Option σ} {next : σ → Nat → Option τ}
    (first : Ends compute middle)
    (second : Ends (next middle) result) :
    Ends (fun fuel => compute fuel >>= fun value => next value fuel) result := by
  obtain ⟨enough, gives⟩ := first
  obtain ⟨plenty, gives'⟩ := second
  refine ⟨max enough plenty, fun fuel above => ?_⟩
  have here := gives fuel (Nat.le_trans (Nat.le_max_left _ _) above)
  have after := gives' fuel (Nat.le_trans (Nat.le_max_right _ _) above)
  dsimp only
  rw [here]
  exact after

theorem yields_some
    (holds : property result) :
    Yields (fun _ => some result) property :=
  ⟨result, ends_some result, holds⟩

theorem Yields.mono
    (yields : Yields compute property)
    (follows : ∀ result, property result → weaker result) :
    Yields compute weaker := by
  obtain ⟨result, ends, holds⟩ := yields
  exact ⟨result, ends, follows result holds⟩

/-- A computation after another one. -/
theorem Yields.bind
    {compute : Nat → Option σ} {next : σ → Nat → Option τ}
    (first : Yields compute property)
    (second : ∀ middle, property middle → Yields (next middle) after) :
    Yields (fun fuel => compute fuel >>= fun value => next value fuel) after := by
  obtain ⟨middle, ends, holds⟩ := first
  obtain ⟨result, endsAfter, holdsAfter⟩ := second middle holds
  exact ⟨result, ends.bind endsAfter, holdsAfter⟩

/-- A computation after one of which it is known how it ends. -/
theorem Ends.yields_bind
    {compute : Nat → Option σ} {next : σ → Nat → Option τ}
    (first : Ends compute middle)
    (second : Yields (next middle) after) :
    Yields (fun fuel => compute fuel >>= fun value => next value fuel) after := by
  obtain ⟨result, ends, holds⟩ := second
  exact ⟨result, first.bind ends, holds⟩

/-- A loop ends when each run of its body, from a state with the invariant, either ends it or leads
to a state with the invariant and a smaller measure. -/
theorem yields_doWhile
    (invariant : σ → Prop)
    (measure : σ → Nat)
    (continues : ∀ state, invariant state → again (body state) = true →
      invariant (body state) ∧ measure (body state) < measure state)
    (stops : ∀ state, invariant state → again (body state) = false → done (body state))
    (start : invariant state) :
    Yields (fun fuel => doWhile body again fuel state) done := by
  induction bound : measure state using Nat.strongRecOn generalizing state with
  | ind size ih =>
    subst bound
    by_cases more : again (body state) = true
    · obtain ⟨kept, smaller⟩ := continues state start more
      obtain ⟨result, ends, holds⟩ := ih (measure (body state)) smaller kept rfl
      refine ⟨result, ends.succ fun less after => ?_, holds⟩
      simp only [doWhile, more, if_true]
      exact after
    · refine ⟨body state, ends_of_succ fun less => ?_, stops state start (by simpa using more)⟩
      simp only [doWhile, if_neg more]

/-- A loop that guards its body with its own condition, with an invariant that the body keeps and
a measure that it decreases, ends in a state that has the invariant and fails the condition. -/
theorem yields_doWhile_guarded
    {step : σ → σ}
    (invariant : σ → Prop)
    (measure : σ → Nat)
    (keeps : ∀ state, invariant state → again state = true →
      invariant (step state) ∧ measure (step state) < measure state)
    (start : invariant state) :
    Yields (fun fuel => doWhile (fun state => if again state then step state else state) again fuel
      state) (fun result => invariant result ∧ again result = false) := by
  refine yields_doWhile invariant measure ?_ ?_ start
  · intro state holds more
    by_cases runs : again state = true
    · rw [if_pos runs]
      exact keeps state holds runs
    · rw [if_neg runs] at more
      exact absurd more runs
  · intro state holds stopped
    by_cases runs : again state = true
    · rw [if_pos runs] at stopped ⊢
      exact ⟨(keeps state holds runs).1, stopped⟩
    · rw [if_neg runs] at stopped ⊢
      exact ⟨holds, stopped⟩

/-- A loop whose condition fails after the first run of its body. -/
theorem ends_doWhile_once
    {body : σ → σ} {again : σ → Bool} {state : σ}
    (stops : again (body state) = false) :
    Ends (fun fuel => doWhile body again fuel state) (body state) := by
  refine ends_of_succ fun less => ?_
  simp only [doWhile, if_neg (Bool.eq_false_iff.mp stops)]

theorem yields_foldlM
    {step : Nat → σ → α → Option σ} {items : List α}
    (invariant : σ → Prop)
    (keeps : ∀ item ∈ items, ∀ state, invariant state →
      Yields (fun fuel => step fuel state item) invariant)
    (start : invariant state) :
    Yields (fun fuel => items.foldlM (step fuel) state) invariant := by
  induction items generalizing state with
  | nil => exact yields_some start
  | cons item rest ih =>
    rw [List.forall_mem_cons] at keeps
    have steps := (keeps.1 state start).bind fun middle holds =>
      ih keeps.2 holds
    simpa only [List.foldlM_cons] using steps

end Loops
