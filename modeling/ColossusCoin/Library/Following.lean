import ColossusCoin.Library.Pipeline

/-!
# One check that passes where another does

Two checks run through stages on states of their own.  The first follows the second
when, from related states, it passes wherever the second one passes, and leaves related
states; it may also reject, if there is an excuse for that.  A failure that the second one
only remembers, to act on it at the end, is taken into account by a property of its states
that such a failure would have cost them.
-/

namespace Stage

/-- An outcome of a stage is a pass to a state with a property, or a rejection with an
excuse. -/
def PassesOrExcused (excused after : Left → Prop) : Option Exit × Left → Prop
  | (none, reached) => after reached
  | (some .reject, failed) => excused failed
  | (some _, _) => False

/-- From states related by `before`, the first stage passes where the second one passes
and leaves a live state, and leaves states related by `after`; or it rejects with an
excuse.  What leaves a live state was given one. -/
structure Follows (live : Right → Prop) (excused : Left → Prop)
    (before after : Left → Right → Prop)
    (first : Stage Left) (second : Stage Right) : Prop where
  backward : ∀ {right next}, second right = (none, next) → live next → live right
  passes : ∀ {left right next}, before left right → second right = (none, next) →
    live next → PassesOrExcused excused (fun reached => after reached next) (first left)

theorem PassesOrExcused.cases
    (passesOr : PassesOrExcused excused property outcome) :
    (∃ reached, outcome = (none, reached) ∧ property reached) ∨
      ∃ failed, outcome = (some .reject, failed) ∧ excused failed := by
  obtain ⟨exit, reached⟩ := outcome
  cases exit with
  | none => exact Or.inl ⟨reached, rfl, passesOr⟩
  | some exit =>
    cases exit with
    | reject => exact Or.inr ⟨reached, rfl, passesOr⟩
    | _ => exact passesOr.elim

theorem follows_rejectIf
    (implies : ∀ left right, before left right → live right → rightTest right = false →
      leftTest left = false ∨ excused (onLeft left)) :
    Follows live excused before before (rejectIf leftTest onLeft) (rejectIf rightTest onRight) where
  backward := by
    intro right next passed alive
    obtain ⟨rfl, -⟩ := eq_of_rejectIf passed
    exact alive
  passes := by
    intro left right next related passed alive
    obtain ⟨rfl, test⟩ := eq_of_rejectIf passed
    unfold rejectIf
    split_ifs with rejects
    · refine (implies left next related alive test).resolve_left ?_
      rw [rejects]
      exact Bool.true_eq_false.mp
    · exact related

/-- A test that the two have in common. -/
theorem follows_sharedTest
    (same : ∀ left right, before left right → leftTest left = rightTest right) :
    Follows live excused before before (rejectIf leftTest onLeft) (rejectIf rightTest onRight) := by
  apply follows_rejectIf
  intro left right related _ passes
  exact Or.inl ((same left right related).trans passes)

/-- An assertion that holds where the other one does. -/
theorem follows_assert
    (implies : ∀ left right, before left right → rightProperty right = true →
      leftProperty left = true) :
    Follows live excused before before (assert leftProperty) (assert rightProperty) where
  backward := by
    intro right next passed alive
    unfold assert at passed
    split_ifs at passed
    · cases passed
      exact alive
    · cases passed
  passes := by
    intro left right next related passed alive
    unfold assert at passed ⊢
    split_ifs at passed with holds
    · cases passed
      rw [if_pos (implies left right related holds)]
      exact related
    · cases passed

/-- Tests for an early success that do not hold. -/
theorem follows_acceptIf
    {onRight : Right → Right} :
    Follows live excused before before (acceptIf (fun _ => false) onLeft)
      (acceptIf (fun _ => false) onRight) where
  backward := by
    intro right next passed alive
    cases passed
    exact alive
  passes := by
    intro left right next related passed alive
    cases passed
    exact related

theorem follows_update
    (backward : ∀ right, live (changeRight right) → live right)
    (changes : ∀ left right, before left right → live right →
      after (changeLeft left) (changeRight right)) :
    Follows live excused before after (update changeLeft) (update changeRight) where
  backward := by
    intro right next passed alive
    cases passed
    exact backward right alive
  passes := by
    intro left right next related passed alive
    cases passed
    exact changes left right related (backward right alive)

/-- A check of its own that succeeds where the other one does, or rejects with an
excuse. -/
theorem follows_require
    (backward : ∀ right next, rightCheck right = (.accept, next) → live next → live right)
    (checks : ∀ left right next, before left right → rightCheck right = (.accept, next) →
      live next →
        (∃ reached, leftCheck left = (.accept, reached) ∧ after reached next) ∨
          ∃ failed, leftCheck left = (.reject, failed) ∧ excused (onLeft failed)) :
    Follows live excused before after (require leftCheck onLeft) (require rightCheck onRight) where
  backward := by
    intro right next passed alive
    exact backward right next (eq_of_require passed) alive
  passes := by
    intro left right next related passed alive
    unfold require
    rcases checks left right next related (eq_of_require passed) alive with
      ⟨reached, accepts, leaves⟩ | ⟨failed, rejects, excuse⟩
    · rw [accepts]
      exact leaves
    · rw [rejects]
      exact excuse

theorem follows_when
    (step : flag = true → Follows live excused before before first second) :
    Follows live excused before before (when flag first) (when flag second) := by
  cases flag with
  | true => exact step rfl
  | false =>
    constructor
    · intro right next passed alive
      cases passed
      exact alive
    · intro left right next related passed alive
      cases passed
      exact related

theorem follows_sequence_cons
    (head : Follows live excused before middle first second)
    (rest : Follows live excused middle after (sequence firstRest) (sequence secondRest)) :
    Follows live excused before after (sequence (first :: firstRest))
      (sequence (second :: secondRest)) where
  backward := by
    intro right next passed alive
    obtain ⟨between, headPassed, restPassed⟩ := sequence_cons_eq_none passed
    exact head.backward headPassed (rest.backward restPassed alive)
  passes := by
    intro left right next related passed alive
    obtain ⟨between, headPassed, restPassed⟩ := sequence_cons_eq_none passed
    rw [sequence_cons]
    rcases (head.passes related headPassed (rest.backward restPassed alive)).cases with
      ⟨reached, firstPassed, relatedBetween⟩ | ⟨failed, rejects, excuse⟩
    · rw [firstPassed]
      exact rest.passes relatedBetween restPassed alive
    · rw [rejects]
      exact excuse

theorem follows_sequence_nil :
    Follows live excused before before (sequence []) (sequence []) where
  backward := by
    intro right next passed alive
    cases passed
    exact alive
  passes := by
    intro left right next related passed alive
    cases passed
    exact related

theorem follows_sequence
    (steps : List.Forall₂ (Follows live excused before before) first second) :
    Follows live excused before before (sequence first) (sequence second) := by
  induction steps with
  | nil => exact follows_sequence_nil
  | cons head _ ih => exact follows_sequence_cons head ih

/-- A check that follows another one stage by stage succeeds where that one does, or
rejects with an excuse. -/
theorem Follows.run
    (follows : Follows live excused before after (sequence first) (sequence second))
    (never : ∀ stage ∈ second, NeverAccepts stage)
    (related : before left right)
    (accepts : Stage.run second right = (.accept, next))
    (alive : live next) :
    (∃ reached, Stage.run first left = (.accept, reached) ∧ after reached next) ∨
      ∃ failed, Stage.run first left = (.reject, failed) ∧ excused failed := by
  unfold Stage.run finish
  rcases (follows.passes related (sequence_eq_of_accept never accepts) alive).cases with
    ⟨reached, passed, leaves⟩ | ⟨failed, rejects, excuse⟩
  · rw [passed]
    exact Or.inl ⟨reached, rfl, leaves⟩
  · rw [rejects]
    exact Or.inr ⟨failed, rfl, excuse⟩

/-- A stage for each item; what relates the states may depend on the items that are
left. -/
theorem follows_forEach
    {related : List Item → Left → Right → Prop}
    {first : Item → Stage Left} {second : Item → Stage Right} {items : List Item}
    (steps : ∀ item rest, item ∈ items →
      Follows live excused (related (item :: rest)) (related rest) (first item) (second item)) :
    Follows live excused (related items) (related []) (forEach first items)
      (forEach second items) := by
  induction items with
  | nil => exact follows_sequence_nil
  | cons item rest ih =>
    have head := steps item rest List.mem_cons_self
    have others := ih fun other left member =>
      steps other left (List.mem_cons_of_mem _ member)
    constructor
    · intro right next passed alive
      obtain ⟨between, headPassed, restPassed⟩ := forEach_cons_eq_none passed
      exact head.backward headPassed (others.backward restPassed alive)
    · intro left right next related passed alive
      obtain ⟨between, headPassed, restPassed⟩ := forEach_cons_eq_none passed
      rw [forEach]
      rcases (head.passes related headPassed (others.backward restPassed alive)).cases
        with ⟨reached, firstPassed, relatedBetween⟩ | ⟨failed, rejects, excuse⟩
      · rw [firstPassed]
        exact others.passes relatedBetween restPassed alive
      · rw [rejects]
        exact excuse

end Stage
