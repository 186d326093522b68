import Mathlib.Data.List.Basic

/-!
# Pipelines of checks

A check runs through stages in order.  A stage works on a state and may end the
check: with success, with a rejection, with an abort when an exception leaves it,
or with the failure of an assertion.  A check that passes all its stages succeeds.
-/

/-- How a check ended. -/
inductive Exit where
  | accept
  | reject
  | abort
  | assertFails
  deriving DecidableEq, Repr

/-- A stage of a check: the exit it takes, if any, and the state it leaves. -/
abbrev Stage (State : Type*) := State → Option Exit × State

namespace Stage

variable {State Item : Type*}

/-- Reject when a test of the state holds. -/
def rejectIf (test : State → Bool) (onReject : State → State) : Stage State :=
  fun state => if test state then (some .reject, onReject state) else (none, state)

/-- Assert a property of the state. -/
def assert (property : State → Bool) : Stage State :=
  fun state => if property state then (none, state) else (some .assertFails, state)

/-- Succeed early when a test of the state holds. -/
def acceptIf (test : State → Bool) (onAccept : State → State) : Stage State :=
  fun state => if test state then (some .accept, onAccept state) else (none, state)

/-- Change the state and go on. -/
def update (change : State → State) : Stage State :=
  fun state => (none, change state)

/-- Run a check of its own, and reject when it does. -/
def require (check : State → Exit × State) (onReject : State → State) : Stage State :=
  fun state =>
    match check state with
    | (.accept, next) => (none, next)
    | (.reject, next) => (some .reject, onReject next)
    | (exit, next) => (some exit, next)

/-- Run a stage for each item, until one takes an exit. -/
def forEach (stage : Item → Stage State) : List Item → Stage State
  | [], state => (none, state)
  | item :: rest, state =>
    match stage item state with
    | (none, next) => forEach stage rest next
    | (some exit, next) => (some exit, next)

/-- Run stages in order, until one takes an exit. -/
def sequence : List (Stage State) → Stage State :=
  forEach id

/-- Run a stage only when a flag is set. -/
def when (flag : Bool) (stage : Stage State) : Stage State :=
  if flag then stage else fun state => (none, state)

/-- The end of a check: it succeeds when no stage took an exit. -/
def finish (outcome : Option Exit × State) : Exit × State :=
  (outcome.1.getD .accept, outcome.2)

/-- Run a check. -/
def run (stages : List (Stage State)) (state : State) : Exit × State :=
  finish (sequence stages state)

@[simp] theorem sequence_nil (state : State) :
    sequence [] state = (none, state) := rfl

theorem forEach_append
    (stage : Item → Stage State) (first second : List Item) (state : State) :
    forEach stage (first ++ second) state =
      match forEach stage first state with
      | (none, next) => forEach stage second next
      | (some exit, next) => (some exit, next) := by
  induction first generalizing state with
  | nil => rfl
  | cons item rest ih =>
    rw [List.cons_append, forEach, forEach]
    cases stage item state with
    | mk exit next =>
      cases exit with
      | none => exact ih next
      | some exit => rfl

theorem sequence_append (first second : List (Stage State)) (state : State) :
    sequence (first ++ second) state =
      match sequence first state with
      | (none, next) => sequence second next
      | (some exit, next) => (some exit, next) :=
  forEach_append id first second state

theorem sequence_cons (stage : Stage State) (rest : List (Stage State)) (state : State) :
    sequence (stage :: rest) state =
      match stage state with
      | (none, next) => sequence rest next
      | (some exit, next) => (some exit, next) := rfl

theorem sequence_cons_rejectIf
    (test : State → Bool) (onReject : State → State) (rest : List (Stage State))
    (state : State) :
    sequence (rejectIf test onReject :: rest) state =
      if test state then (some .reject, onReject state) else sequence rest state := by
  rw [sequence_cons]
  unfold rejectIf
  split_ifs <;> rfl

/-- A check of its own takes its exit, unless it succeeds. -/
theorem require_eq
    (check : State → Exit × State) (onReject : State → State) (state : State) :
    require check onReject state =
      (if (check state).1 = .accept then none else some (check state).1,
        if (check state).1 = .reject then onReject (check state).2 else (check state).2) := by
  unfold require
  generalize check state = outcome
  obtain ⟨exit, next⟩ := outcome
  cases exit <;> rfl

theorem forEach_cons_eq_none
    (passes : forEach stage (item :: rest) state = (none, final)) :
    ∃ next, stage item state = (none, next) ∧ forEach stage rest next = (none, final) := by
  rw [forEach] at passes
  cases outcome : stage item state with
  | mk exit next =>
    rw [outcome] at passes
    cases exit with
    | some exit => cases passes
    | none => exact ⟨next, rfl, passes⟩

theorem forEach_passes_of_mem
    (passes : (forEach stage items state).1 = none)
    (member : item ∈ items) :
    ∃ reached, (stage item reached).1 = none := by
  induction items generalizing state with
  | nil => cases member
  | cons head rest ih =>
    rw [forEach] at passes
    cases outcome : stage head state with
    | mk exit next =>
      rw [outcome] at passes
      cases exit with
      | some exit => cases passes
      | none =>
        rcases List.mem_cons.mp member with rfl | inRest
        · exact ⟨state, by rw [outcome]⟩
        · exact ih passes inRest

theorem forEach_passes_iff
    {stage : Item → Stage State} {items : List Item} {state : State}
    (leaves : ∀ item ∈ items, (stage item state).1 = none → (stage item state).2 = state) :
    (forEach stage items state).1 = none ↔ ∀ item ∈ items, (stage item state).1 = none := by
  induction items with
  | nil => simp [forEach]
  | cons item rest ih =>
    have later := ih fun other member =>
      leaves other (List.mem_cons_of_mem _ member)
    have left := leaves item List.mem_cons_self
    rw [forEach, List.forall_mem_cons]
    generalize stage item state = outcome at left ⊢
    obtain ⟨exit, next⟩ := outcome
    cases exit with
    | some exit => simp
    | none =>
      have same : next = state := left rfl
      subst same
      simpa using later

theorem forEach_eq_of_passes
    {stage : Item → Stage State} {items : List Item} {state : State}
    (leaves : ∀ item ∈ items, (stage item state).1 = none → (stage item state).2 = state)
    (passes : (forEach stage items state).1 = none) :
    forEach stage items state = (none, state) := by
  induction items with
  | nil => rfl
  | cons item rest ih =>
    have left := leaves item List.mem_cons_self
    rw [forEach] at passes ⊢
    generalize stage item state = outcome at left passes ⊢
    obtain ⟨exit, next⟩ := outcome
    cases exit with
    | some exit => cases passes
    | none =>
      have same : next = state := left rfl
      subst same
      exact ih (fun other member => leaves other (List.mem_cons_of_mem _ member)) passes

variable {stages : List (Stage State)}

theorem passes_of_mem
    (passes : (sequence stages state).1 = none)
    (member : stage ∈ stages) :
    ∃ reached, (stage reached).1 = none :=
  forEach_passes_of_mem passes member

theorem test_of_rejectIf
    (test : State → Bool)
    (passes : (rejectIf test onReject state).1 = none) :
    test state = false := by
  by_contra holds
  rw [Bool.not_eq_false] at holds
  simp [rejectIf, holds] at passes

/-- The stage ends the check only by rejecting it or by aborting. -/
def NeverAccepts (stage : Stage State) : Prop :=
  ∀ state, (stage state).1 ≠ some .accept

theorem neverAccepts_rejectIf (test : State → Bool) (onReject : State → State) :
    NeverAccepts (rejectIf test onReject) := by
  intro state
  unfold rejectIf
  split <;> simp

theorem neverAccepts_assert (property : State → Bool) :
    NeverAccepts (assert property) := by
  intro state
  unfold assert
  split <;> simp

theorem neverAccepts_update (change : State → State) :
    NeverAccepts (update change) := by
  intro state
  simp [update]

theorem neverAccepts_require
    (check : State → Exit × State) (onReject : State → State) :
    NeverAccepts (require check onReject) := by
  intro state
  unfold require
  cases check state with
  | mk exit next => cases exit <;> simp

theorem neverAccepts_forEach
    (each : ∀ item ∈ items, NeverAccepts (stage item)) :
    NeverAccepts (forEach stage items) := by
  induction items with
  | nil =>
    intro state
    simp [forEach]
  | cons head rest ih =>
    intro state
    rw [forEach]
    have headNever := each head List.mem_cons_self state
    cases outcome : stage head state with
    | mk exit next =>
      rw [outcome] at headNever
      cases exit with
      | some exit => exact headNever
      | none =>
        exact ih (fun item member => each item (List.mem_cons_of_mem _ member)) next

theorem neverAccepts_sequence
    (each : ∀ stage ∈ stages, NeverAccepts stage) :
    NeverAccepts (sequence stages) :=
  neverAccepts_forEach each

theorem neverAccepts_when
    (never : NeverAccepts stage) :
    NeverAccepts (when flag stage) := by
  cases flag with
  | false =>
    intro state
    simp [when]
  | true => exact never

/-- A check whose stages never succeed early succeeds only by passing them all. -/
theorem sequence_passes_of_accept
    (never : ∀ stage ∈ stages, NeverAccepts stage)
    (accepts : (run stages state).1 = .accept) :
    (sequence stages state).1 = none := by
  have neverAll := neverAccepts_sequence never state
  unfold run finish at accepts
  cases outcome : (sequence stages state).1 with
  | none => rfl
  | some exit =>
    rw [outcome] at accepts neverAll
    exact absurd (congrArg some accepts) neverAll

theorem sequence_eq_of_accept
    (never : ∀ stage ∈ stages, NeverAccepts stage)
    (accepts : run stages state = (.accept, final)) :
    sequence stages state = (none, final) := by
  have passes := sequence_passes_of_accept never (congrArg Prod.fst accepts)
  have finals := congrArg Prod.snd accepts
  exact Prod.ext passes finals

/-! ## Running stages in two groups -/

/-- A check that succeeds, with a first group of stages that never succeeds early:
the first group passes, and the second one succeeds from where it leaves off. -/
theorem run_append_of_accept
    (never : ∀ stage ∈ first, NeverAccepts stage)
    (accepts : (run (first ++ second) state).1 = .accept) :
    ∃ next, sequence first state = (none, next) ∧
      run (first ++ second) state = run second next := by
  have neverFirst := neverAccepts_sequence never state
  unfold run at accepts ⊢
  rw [sequence_append] at accepts ⊢
  cases outcome : sequence first state with
  | mk exit next =>
    rw [outcome] at accepts neverFirst
    cases exit with
    | none => exact ⟨next, rfl, rfl⟩
    | some exit => exact absurd (congrArg some accepts) neverFirst

/-- The same with a single stage in front. -/
theorem run_cons_of_accept
    (never : NeverAccepts stage)
    (accepts : (run (stage :: rest) state).1 = .accept) :
    ∃ next, stage state = (none, next) ∧ run (stage :: rest) state = run rest next := by
  have neverStage := never state
  unfold run sequence at accepts ⊢
  rw [forEach, id] at accepts ⊢
  cases outcome : stage state with
  | mk exit next =>
    rw [outcome] at accepts neverStage
    cases exit with
    | none => exact ⟨next, rfl, rfl⟩
    | some exit => exact absurd (congrArg some accepts) neverStage

theorem sequence_cons_eq_none
    (passes : sequence (stage :: rest) state = (none, final)) :
    ∃ next, stage state = (none, next) ∧ sequence rest next = (none, final) :=
  forEach_cons_eq_none passes

theorem eq_of_rejectIf
    (passes : rejectIf test onReject state = (none, next)) :
    next = state ∧ test state = false := by
  unfold rejectIf at passes
  split_ifs at passes with tested
  · cases passes
  · simp only [Prod.mk.injEq, true_and] at passes
    exact ⟨passes.symm, by simpa using tested⟩

theorem eq_of_require
    (passes : require check onReject state = (none, next)) :
    check state = (.accept, next) := by
  unfold require at passes
  cases outcome : check state with
  | mk exit checked =>
    rw [outcome] at passes
    cases exit with
    | accept =>
      simp only [Prod.mk.injEq, true_and] at passes
      rw [passes]
    | _ => cases passes

/-! ## How a stage changes its state

Whichever way a stage ends, the state it leaves is related to the one it was given.
A frame is the case where something observed of the state stays the same. -/

/-- The stage relates each state to the one it leaves. -/
def Relates (related : State → State → Prop) (stage : Stage State) : Prop :=
  ∀ state, related state (stage state).2

section Relations

variable {related : State → State → Prop} [IsPreorder State related]

theorem relates_rejectIf
    (test : State → Bool)
    (rejects : ∀ state, related state (onReject state)) :
    Relates related (rejectIf test onReject) := by
  intro state
  unfold rejectIf
  split_ifs
  · exact rejects state
  · exact refl state

theorem relates_require
    (checks : ∀ state, related state (check state).2)
    (rejects : ∀ state, related state (onReject state)) :
    Relates related (require check onReject) := by
  intro state
  have checked := checks state
  unfold require
  cases outcome : check state with
  | mk exit next =>
    rw [outcome] at checked
    cases exit with
    | reject => exact IsTrans.trans _ _ _ checked (rejects next)
    | _ => exact checked

theorem relates_forEach
    (steps : ∀ item ∈ items, Relates related (each item)) :
    Relates related (forEach each items) := by
  induction items with
  | nil =>
    intro state
    exact refl state
  | cons item rest ih =>
    intro state
    have step := steps item List.mem_cons_self state
    rw [forEach]
    cases outcome : each item state with
    | mk exit next =>
      rw [outcome] at step
      cases exit with
      | some exit => exact step
      | none =>
        have others := ih (fun other member => steps other (List.mem_cons_of_mem _ member)) next
        exact IsTrans.trans _ _ _ step others

theorem relates_sequence
    (steps : ∀ stage ∈ stages, Relates related stage) :
    Relates related (sequence stages) :=
  relates_forEach steps

theorem relates_append
    (firstStep : Relates related (sequence first))
    (secondStep : Relates related (sequence second)) :
    Relates related (sequence (first ++ second)) := by
  intro state
  have step := firstStep state
  rw [sequence_append]
  generalize sequence first state = outcome at step ⊢
  obtain ⟨exit, next⟩ := outcome
  cases exit with
  | some exit => exact step
  | none => exact IsTrans.trans _ _ _ step (secondStep next)

theorem relates_when
    (step : Relates related stage) :
    Relates related (when flag stage) := by
  cases flag with
  | false =>
    intro state
    exact refl state
  | true => exact step

end Relations

/-- The stage does not change what is observed of the state. -/
def Frame {Observed : Type*} (observe : State → Observed) (stage : Stage State) : Prop :=
  Relates (fun before after => observe after = observe before) stage

section Frames

variable {Observed : Type*} {observe : State → Observed}

instance : IsPreorder State fun before after => observe after = observe before where
  refl _ := rfl
  trans _ _ _ first second := second.trans first

theorem frame_rejectIf
    (test : State → Bool)
    (keeps : ∀ state, observe (onReject state) = observe state) :
    Frame observe (rejectIf test onReject) :=
  relates_rejectIf test keeps

theorem frame_update
    (keeps : ∀ state, observe (change state) = observe state) :
    Frame observe (update change) :=
  keeps

theorem frame_require
    (keeps : ∀ state, observe (check state).2 = observe state)
    (rejects : ∀ state, observe (onReject state) = observe state) :
    Frame observe (require check onReject) :=
  relates_require keeps rejects

theorem frame_forEach
    (keeps : ∀ item ∈ items, Frame observe (each item)) :
    Frame observe (forEach each items) :=
  relates_forEach keeps

theorem frame_sequence
    (keeps : ∀ stage ∈ stages, Frame observe stage) :
    Frame observe (sequence stages) :=
  frame_forEach keeps

theorem frame_when
    (keeps : Frame observe stage) :
    Frame observe (when flag stage) :=
  relates_when keeps

end Frames

/-! ## Triples

From a state with the property `before`, a stage meets no failing assertion, and
when it takes no exit it leaves a state with the property `after`. -/

/-- The triple of a stage. -/
def Triple (before : State → Prop) (stage : Stage State) (after : State → Prop) : Prop :=
  ∀ state, before state →
    (stage state).1 ≠ some .assertFails ∧
      ((stage state).1 = none → after (stage state).2)

section Triples

theorem Triple.weaken
    (triple : Triple before stage after)
    (implies : ∀ state, after state → weaker state) :
    Triple before stage weaker := by
  intro state holds
  exact ⟨(triple state holds).1, fun passed => implies _ ((triple state holds).2 passed)⟩

theorem triple_rejectIf (test : State → Bool) (onReject : State → State) :
    Triple before (rejectIf test onReject) (fun state => before state ∧ test state = false) := by
  intro state holds
  unfold rejectIf
  by_cases fails : test state = true
  · simp [fails]
  · simp [fails, holds]

theorem triple_update
    (keeps : ∀ state, before state → after (change state)) :
    Triple before (update change) after := by
  intro state holds
  exact ⟨by simp [update], fun _ => keeps state holds⟩

theorem triple_sequence_nil : Triple before (sequence []) before := by
  intro state holds
  exact ⟨by simp, fun _ => holds⟩

/-- Stages in order: each one's property is what the next one starts from. -/
theorem triple_sequence_cons
    (first : Triple before stage middle)
    (others : Triple middle (sequence rest) after) :
    Triple before (sequence (stage :: rest)) after := by
  intro state holds
  have step := first state holds
  unfold sequence
  rw [forEach, id]
  cases outcome : stage state with
  | mk exit next =>
    rw [outcome] at step
    cases exit with
    | some exit => exact ⟨step.1, fun passed => by cases passed⟩
    | none => exact others next (step.2 rfl)

theorem triple_forEach
    (keeps : ∀ item ∈ items, Triple before (each item) before) :
    Triple before (forEach each items) before := by
  induction items with
  | nil => exact triple_sequence_nil
  | cons item rest ih =>
    intro state holds
    have step := keeps item List.mem_cons_self state holds
    rw [forEach]
    cases outcome : each item state with
    | mk exit next =>
      rw [outcome] at step
      cases exit with
      | some exit => exact ⟨step.1, fun passed => by cases passed⟩
      | none =>
        exact ih
          (fun other member => keeps other (List.mem_cons_of_mem _ member)) next
          (step.2 rfl)

end Triples

/-! ## Two runs in step

From related states, a stage takes the same exit and leaves related states. -/

/-- The two runs of a stage stay in step. -/
def Lockstep (related : State → State → Prop) (stage : Stage State) : Prop :=
  ∀ left right, related left right →
    (stage right).1 = (stage left).1 ∧ related (stage left).2 (stage right).2

section Lockstep

variable {related : State → State → Prop}

theorem lockstep_rejectIf
    (sameTest : ∀ left right, related left right → test right = test left)
    (rejects : ∀ left right, related left right → related (onReject left) (onReject right)) :
    Lockstep related (rejectIf test onReject) := by
  intro left right relation
  unfold rejectIf
  rw [sameTest left right relation]
  split_ifs
  · exact ⟨rfl, rejects left right relation⟩
  · exact ⟨rfl, relation⟩

theorem lockstep_assert
    (same : ∀ left right, related left right → property right = property left) :
    Lockstep related (assert property) := by
  intro left right relation
  unfold assert
  rw [same left right relation]
  split_ifs
  · exact ⟨rfl, relation⟩
  · exact ⟨rfl, relation⟩

theorem lockstep_acceptIf
    (sameTest : ∀ left right, related left right → test right = test left)
    (accepts : ∀ left right, related left right → related (onAccept left) (onAccept right)) :
    Lockstep related (acceptIf test onAccept) := by
  intro left right relation
  unfold acceptIf
  rw [sameTest left right relation]
  split_ifs
  · exact ⟨rfl, accepts left right relation⟩
  · exact ⟨rfl, relation⟩

theorem lockstep_update
    (changes : ∀ left right, related left right → related (change left) (change right)) :
    Lockstep related (update change) :=
  fun left right relation => ⟨rfl, changes left right relation⟩

theorem lockstep_require
    (checks : ∀ left right, related left right →
      (check right).1 = (check left).1 ∧ related (check left).2 (check right).2)
    (rejects : ∀ left right, related left right → related (onReject left) (onReject right)) :
    Lockstep related (require check onReject) := by
  intro left right relation
  obtain ⟨sameExit, checked⟩ := checks left right relation
  rw [require_eq, require_eq, sameExit]
  refine ⟨rfl, ?_⟩
  dsimp only
  split_ifs
  · exact rejects _ _ checked
  · exact checked

theorem lockstep_forEach
    (steps : ∀ item ∈ items, Lockstep related (each item)) :
    Lockstep related (forEach each items) := by
  induction items with
  | nil => exact fun left right relation => ⟨rfl, relation⟩
  | cons item rest ih =>
    intro left right relation
    obtain ⟨sameExit, stepped⟩ := steps item List.mem_cons_self left right relation
    rw [forEach, forEach]
    generalize each item left = leftOutcome at sameExit stepped ⊢
    generalize each item right = rightOutcome at sameExit stepped ⊢
    obtain ⟨leftExit, leftNext⟩ := leftOutcome
    obtain ⟨rightExit, rightNext⟩ := rightOutcome
    subst sameExit
    cases rightExit with
    | some exit => exact ⟨rfl, stepped⟩
    | none =>
      exact ih
        (fun other member => steps other (List.mem_cons_of_mem _ member))
        leftNext rightNext stepped

theorem lockstep_sequence
    (steps : ∀ stage ∈ stages, Lockstep related stage) :
    Lockstep related (sequence stages) :=
  lockstep_forEach steps

theorem lockstep_when
    (step : Lockstep related stage) :
    Lockstep related (when flag stage) := by
  cases flag with
  | false => exact fun left right relation => ⟨rfl, relation⟩
  | true => exact step

/-- Checks whose stages stay in step end alike. -/
theorem run_inStep
    (steps : ∀ stage ∈ stages, Lockstep related stage)
    (relation : related left right) :
    (run stages right).1 = (run stages left).1 ∧
      related (run stages left).2 (run stages right).2 := by
  obtain ⟨sameExit, stepped⟩ := lockstep_sequence steps left right relation
  unfold run finish
  rw [sameExit]
  exact ⟨rfl, stepped⟩

end Lockstep

/-! ## Stopping

A stage that takes an exit from every state with a property keeps a check from
succeeding, if the stages before it keep the property. -/

/-- The stage takes an exit from each state with the property. -/
def Stops (holds : State → Prop) (stage : Stage State) : Prop :=
  ∀ state, holds state → (stage state).1 ≠ none

section Stops

theorem stops_forEach
    (member : item ∈ items)
    (stops : Stops holds (each item))
    (keeps : ∀ other ∈ items, Relates (fun before after => holds before → holds after)
      (each other)) :
    Stops holds (forEach each items) := by
  induction items with
  | nil => cases member
  | cons head rest ih =>
    intro state held
    have kept := keeps head List.mem_cons_self state held
    rw [forEach]
    cases outcome : each head state with
    | mk exit next =>
      rw [outcome] at kept
      cases exit with
      | some exit => exact Option.some_ne_none exit
      | none =>
        rcases List.mem_cons.mp member with rfl | inRest
        · exact absurd (congrArg Prod.fst outcome) (stops state held)
        · exact ih inRest
            (fun other inRest => keeps other (List.mem_cons_of_mem _ inRest)) next kept

theorem stops_sequence
    (member : stage ∈ stages)
    (stops : Stops holds stage)
    (keeps : ∀ other ∈ stages, Relates (fun before after => holds before → holds after) other) :
    Stops holds (sequence stages) :=
  stops_forEach member stops keeps

theorem run_ne_accept
    (never : ∀ stage ∈ stages, NeverAccepts stage)
    (member : stage ∈ stages)
    (stops : Stops holds stage)
    (keeps : ∀ other ∈ stages, Relates (fun before after => holds before → holds after) other)
    (held : holds state) :
    (run stages state).1 ≠ .accept := by
  intro accepts
  exact stops_sequence member stops keeps state held (sequence_passes_of_accept never accepts)

end Stops

end Stage
