import Mathlib.Data.List.Induction

/-!
# Runs of labelled systems

A system takes labelled steps between states.  A run is a sequence of steps
with the list of its labels.  What one step preserves a run preserves, and a
system whose every step another one can match on related states refines it:
each of its runs is a run of the other with the same labels.  Where steps are a
function and one of them keeps a property exactly when it meets a condition, a run
keeps the property throughout exactly when all of its steps meet it.
-/

/-- A step relation whose steps carry labels. -/
structure LabelledSystem (State Label : Type*) where
  Step : State → Label → State → Prop

namespace LabelledSystem

/-- A run, with the labels of its steps in order. -/
inductive Run (system : LabelledSystem State Label) :
    State → List Label → State → Prop
  | nil {start : State} : Run system start [] start
  | snoc {start state next : State} {trace : List Label} {label : Label} :
      Run system start trace state → system.Step state label next →
        Run system start (trace ++ [label]) next

variable {system : LabelledSystem State Label}

theorem Run.foldl
    (steps : ∀ label ∈ trace, ∀ state, system.Step state label (apply state label))
    (start : State) :
    system.Run start trace (trace.foldl apply start) := by
  induction trace using List.reverseRecOn with
  | nil => exact .nil
  | append_singleton past label ih =>
    have pastRun := ih fun earlier member =>
      steps earlier (List.mem_append_left [label] member)
    have step := steps label (List.mem_append_right past (List.mem_singleton_self label))
      (past.foldl apply start)
    rw [List.foldl_append]
    exact .snoc pastRun step

/-- What every step preserves holds at the end of a run if it holds at its
start. -/
theorem Run.invariant
    {start state : State}
    {trace : List Label} {Holds : State → Prop}
    (run : system.Run start trace state)
    (atStart : Holds start)
    (preserved : ∀ {current label next},
      Holds current → system.Step current label next → Holds next) :
    Holds state := by
  induction run with
  | nil => exact atStart
  | snoc _ step ih => exact preserved ih step

theorem Run.traceInvariant
    {start state : State}
    {trace : List Label} {Holds : List Label → State → Prop}
    (run : system.Run start trace state)
    (atStart : Holds [] start)
    (preserved : ∀ {past current label next},
      Holds past current → system.Step current label next → Holds (past ++ [label]) next) :
    Holds trace state := by
  induction run with
  | nil => exact atStart
  | snoc _ step ih => exact preserved ih step

theorem Run.mono
    {system other : LabelledSystem State Label}
    (run : system.Run start trace state)
    (included : ∀ {current label next},
      system.Step current label next → other.Step current label next) :
    other.Run start trace state := by
  induction run with
  | nil => exact .nil
  | snoc _ step ih => exact .snoc ih (included step)

/-- The states from which every concrete step has an abstract one with the same
label between related states. -/
structure Simulation
    (concrete : LabelledSystem State Label)
    (abstract : LabelledSystem Abstract Label)
    (Related : State → Abstract → Prop) : Prop where
  step : ∀ {state next : State} {label : Label} {image : Abstract},
    Related state image → concrete.Step state label next →
      ∃ nextImage, abstract.Step image label nextImage ∧ Related next nextImage

/-- A simulation turns every concrete run into an abstract run with the same
labels. -/
theorem Simulation.run
    (simulation : Simulation concrete abstract Related)
    (related : Related start image)
    (run : concrete.Run start trace state) :
    ∃ finalImage, abstract.Run image trace finalImage ∧ Related state finalImage := by
  induction run with
  | nil => exact ⟨image, .nil, related⟩
  | snoc _ step ih =>
    obtain ⟨currentImage, imageRun, currentRelated⟩ := ih
    obtain ⟨nextImage, imageStep, nextRelated⟩ :=
      simulation.step currentRelated step
    exact ⟨nextImage, .snoc imageRun imageStep, nextRelated⟩

end LabelledSystem

/-- Say that a step of a trace from a strong state leads to one where a property holds
exactly when the step meets a condition on the state before it, and that the property then
makes the next state strong.  The property holds after every prefix of the trace if and only
if every step of the trace meets the condition. -/
theorem foldl_holds_iff_of_mem
    {State Label : Type*} {apply : State → Label → State}
    {Strong Holds : State → Prop} {Keeps : State → Label → Prop} {start : State}
    {trace : List Label}
    (atStart : Strong start)
    (holds : ∀ state, Strong state → Holds state)
    (keeps : ∀ state, ∀ label ∈ trace, Strong state →
      (Holds (apply state label) ↔ Keeps state label))
    (carries : ∀ state, ∀ label ∈ trace, Strong state → Holds (apply state label) →
      Strong (apply state label)) :
    (∀ past, past <+: trace → Holds (past.foldl apply start)) ↔
      ∀ past label, past ++ [label] <+: trace → Keeps (past.foldl apply start) label := by
  have snoc : ∀ past label, (past ++ [label]).foldl apply start =
      apply (past.foldl apply start) label := by
    intro past label
    rw [List.foldl_append, List.foldl_cons, List.foldl_nil]
  have member : ∀ past label, past ++ [label] <+: trace → label ∈ trace := by
    intro past label before
    exact before.subset (List.mem_append_right past (List.mem_singleton_self label))
  constructor
  · intro always
    have strong : ∀ past, past <+: trace → Strong (past.foldl apply start) := by
      intro past
      induction past using List.reverseRecOn with
      | nil => exact fun _ => atStart
      | append_singleton earlier label ih =>
        intro before
        have now := ih ((List.prefix_append earlier [label]).trans before)
        have next := always (earlier ++ [label]) before
        rw [snoc] at next ⊢
        exact carries _ label (member earlier label before) now next
    intro past label before
    have now := strong past ((List.prefix_append past [label]).trans before)
    have next := always (past ++ [label]) before
    rw [snoc] at next
    exact (keeps _ label (member past label before) now).mp next
  · intro meets
    have strong : ∀ past, past <+: trace → Strong (past.foldl apply start) := by
      intro past
      induction past using List.reverseRecOn with
      | nil => exact fun _ => atStart
      | append_singleton earlier label ih =>
        intro before
        have now := ih ((List.prefix_append earlier [label]).trans before)
        have taken := member earlier label before
        rw [snoc]
        exact carries _ label taken now ((keeps _ label taken now).mpr (meets earlier label before))
    exact fun past before => holds _ (strong past before)

/-- The same where every label takes such a step. -/
theorem foldl_holds_iff
    {Strong Holds : State → Prop} {Keeps : State → Label → Prop}
    (atStart : Strong start)
    (holds : ∀ state, Strong state → Holds state)
    (keeps : ∀ state label, Strong state → (Holds (apply state label) ↔ Keeps state label))
    (carries : ∀ state label, Strong state → Holds (apply state label) →
      Strong (apply state label))
    (trace : List Label) :
    (∀ past, past <+: trace → Holds (past.foldl apply start)) ↔
      ∀ past label, past ++ [label] <+: trace → Keeps (past.foldl apply start) label :=
  foldl_holds_iff_of_mem atStart holds (fun state label _ => keeps state label)
    fun state label _ => carries state label

/-- A property of what has happened so far that a step keeps exactly when it meets a
condition holds of every prefix of a trace if and only if every step meets the condition. -/
theorem prefixes_hold_iff
    {Holds : List Label → Prop} {Keeps : List Label → Label → Prop}
    (atStart : Holds [])
    (keeps : ∀ past label, Holds past → (Holds (past ++ [label]) ↔ Keeps past label)) :
    (∀ past, past <+: trace → Holds past) ↔
      ∀ past label, past ++ [label] <+: trace → Keeps past label := by
  constructor
  · intro always past label before
    have now := always past ((List.prefix_append past [label]).trans before)
    exact (keeps past label now).mp (always (past ++ [label]) before)
  · intro meets past
    induction past using List.reverseRecOn with
    | nil => exact fun _ => atStart
    | append_singleton earlier label ih =>
      intro before
      have now := ih ((List.prefix_append earlier [label]).trans before)
      exact (keeps earlier label now).mpr (meets earlier label before)

theorem steps_nil_iff {Label : Type*} {Keeps : List Label → Label → Prop} :
    (∀ past label, past ++ [label] <+: [] → Keeps past label) ↔ True := by
  refine iff_of_true ?_ trivial
  intro past label before
  have empty := List.prefix_nil.mp before
  exact absurd empty (List.append_ne_nil_of_right_ne_nil past (List.cons_ne_nil label []))

theorem steps_cons_iff
    {Label : Type*} {Keeps : List Label → Label → Prop} {first : Label} {rest : List Label} :
    (∀ past label, past ++ [label] <+: first :: rest → Keeps past label) ↔
      Keeps [] first ∧
        ∀ past label, past ++ [label] <+: rest → Keeps (first :: past) label := by
  constructor
  · intro all
    refine And.intro (all [] first (List.prefix_append [first] rest)) ?_
    intro past label before
    exact all (first :: past) label (List.cons_prefix_cons.mpr (And.intro rfl before))
  · intro steps past label before
    cases past with
    | nil =>
      rw [(List.cons_prefix_cons.mp before).1]
      exact steps.1
    | cons earlier past =>
      obtain ⟨same, restBefore⟩ := List.cons_prefix_cons.mp before
      rw [same]
      exact steps.2 past label restBefore
