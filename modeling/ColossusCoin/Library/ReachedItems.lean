import ColossusCoin.Library.Pipeline
import ColossusCoin.Library.System
import Mathlib.Algebra.Order.BigOperators.Group.List
import Mathlib.Algebra.Order.Ring.Int

/-!
# The items that a loop comes to

A loop that runs a stage for each item stops where the stage takes an exit.  The items before
that, with the states they find, account for what the loop adds to a quantity of its state.
-/

namespace Stage

theorem sequence_singleton (stage : Stage State) (state : State) :
    sequence [stage] state = stage state := by
  rw [sequence_cons]
  obtain ⟨exit, next⟩ := stage state
  cases exit <;> rfl

/-- The items that a loop comes to, each with the state it finds. -/
def reached (stage : Item → Stage State) : List Item → State → List (Item × State)
  | [], _ => []
  | item :: rest, state =>
    (item, state) ::
      match stage item state with
      | (none, next) => reached stage rest next
      | (some _, _) => []

theorem reached_append (first second : List Item) (state : State) :
    reached stage (first ++ second) state =
      reached stage first state ++
        match forEach stage first state with
        | (none, next) => reached stage second next
        | (some _, _) => [] := by
  induction first generalizing state with
  | nil => rfl
  | cons item rest ih =>
    rw [List.cons_append, reached, reached, forEach]
    cases stage item state with
    | mk exit next =>
      cases exit with
      | none =>
        dsimp only
        rw [ih next, List.cons_append]
      | some exit => rfl

theorem holds_of_reached
    {holds : State → Prop}
    (keeps : ∀ item ∈ items, ∀ before after, holds before →
      stage item before = (none, after) → holds after)
    (start : holds state) :
    ∀ entry ∈ reached stage items state, entry.1 ∈ items ∧ holds entry.2 := by
  induction items generalizing state with
  | nil =>
    intro entry absurd_mem
    cases absurd_mem
  | cons item rest ih =>
    intro entry present
    rw [reached] at present
    rcases List.mem_cons.mp present with rfl | later
    · exact ⟨List.mem_cons_self, start⟩
    · cases outcome : stage item state with
      | mk exit next =>
        rw [outcome] at later
        cases exit with
        | some exit => cases later
        | none =>
          have after := ih
            (fun other member => keeps other (List.mem_cons_of_mem _ member))
            (keeps item List.mem_cons_self _ _ start outcome) entry later
          exact ⟨List.mem_cons_of_mem _ after.1, after.2⟩

/-- The total of an amount over the items that a loop comes to. -/
def total (stage : Item → Stage State) (amount : Item → State → Int) (items : List Item)
    (state : State) : Int :=
  ((reached stage items state).map fun entry => amount entry.1 entry.2).sum

variable {amount : Item → State → Int}

theorem total_cons (item : Item) (rest : List Item) (state : State) :
    total stage amount (item :: rest) state =
      amount item state +
        match stage item state with
        | (none, next) => total stage amount rest next
        | (some _, _) => 0 := by
  unfold total
  rw [reached, List.map_cons, List.sum_cons]
  cases stage item state with
  | mk exit next => cases exit <;> rfl

/-- Amounts that are not negative where they are reached add up to more over more items. -/
theorem total_le_total_append
    (nonneg : ∀ entry ∈ reached stage (first ++ second) state, 0 ≤ amount entry.1 entry.2) :
    total stage amount first state ≤ total stage amount (first ++ second) state := by
  unfold total
  rw [reached_append] at nonneg ⊢
  rw [List.map_append, List.sum_append]
  refine Int.le_add_of_nonneg_right (List.sum_nonneg ?_)
  intro value present
  obtain ⟨entry, later, rfl⟩ := List.mem_map.mp present
  exact nonneg entry (List.mem_append_right _ later)

theorem measure_forEach
    {measure : State → Int}
    (adds : ∀ item ∈ items, ∀ state,
      measure (stage item state).2 = measure state + amount item state)
    (state : State) :
    measure (forEach stage items state).2 = measure state + total stage amount items state := by
  induction items generalizing state with
  | nil => exact (Int.add_zero _).symm
  | cons item rest ih =>
    have step := adds item List.mem_cons_self state
    rw [forEach, total_cons]
    cases outcome : stage item state with
    | mk exit next =>
      rw [outcome] at step
      cases exit with
      | some exit =>
        rw [Int.add_zero]
        exact step
      | none =>
        rw [ih
          fun other member => adds other (List.mem_cons_of_mem _ member), step,
          Int.add_assoc]

end Stage

/-!
## Scans that a test may break off

A scan tests items in order up to the first hit.  A test may fault, and the scan faults
with it.  Whether it does depends on the items it comes to: those with no hit before them.
-/

section FaultingScan

variable {test : Item → Option Bool} {items : List Item}

theorem List.anyM_cons_of_faults
    (faults : test item = none) :
    (item :: items).anyM test = none := by
  simp [List.anyM, faults]

theorem List.anyM_cons_of_hit
    (hit : test item = some true) :
    (item :: items).anyM test = some true := by
  simp [List.anyM, hit]

theorem List.anyM_cons_of_miss
    (miss : test item = some false) :
    (item :: items).anyM test = items.anyM test := by
  simp [List.anyM, miss]

/-- A scan gets through exactly when no item faults that it comes to. -/
theorem List.isSome_anyM_iff :
    (items.anyM test).isSome = true ↔
      ∀ past item, past ++ [item] <+: items →
        (∀ earlier ∈ past, test earlier ≠ some true) → (test item).isSome = true := by
  induction items with
  | nil =>
    exact iff_of_true rfl (steps_nil_iff.mpr trivial)
  | cons first rest ih =>
    rw [steps_cons_iff]
    rcases outcome : test first with _ | _ | _
    · rw [anyM_cons_of_faults outcome]
      simp
    · rw [anyM_cons_of_miss outcome, ih]
      simp [outcome]
    · rw [anyM_cons_of_hit outcome]
      simp [outcome]

/-- Where a scan gets through, it says what the tests say without their faults. -/
theorem List.any_of_anyM
    (agree : ∀ item hit, test item = some hit → plain item = hit)
    (scanned : items.anyM test = some hit) :
    items.any plain = hit := by
  induction items with
  | nil =>
    cases scanned
    rfl
  | cons first rest ih =>
    rw [List.any_cons]
    rcases outcome : test first with _ | _ | _
    · rw [anyM_cons_of_faults outcome] at scanned
      cases scanned
    · rw [anyM_cons_of_miss outcome] at scanned
      rw [agree first false outcome, Bool.false_or]
      exact ih scanned
    · rw [anyM_cons_of_hit outcome] at scanned
      cases scanned
      rw [agree first true outcome, Bool.true_or]

end FaultingScan
