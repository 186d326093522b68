import Mathlib.Data.List.Perm.Subperm

/-!
# Removal by shifting

The elements that stay are moved to the front of a sequence, which keeps its length: what is
behind them is what stood there.  A caller that does not cut the sequence off has removed
nothing for certain, and as soon as a value has gone another one stands there twice.

Where the places of a sequence are assigned to one by one, and an assignment leaves a part of what
was in the place, that part stays with the place while the rest moves.
-/

namespace ShiftedRemoval

variable {result : List α}

/-- Move what does not match to the front. -/
def shiftOut (p : α → Bool) (list : List α) : List α :=
  let kept := list.filter fun x => !p x
  kept ++ list.drop kept.length

theorem length_shiftOut (p : α → Bool) (list : List α) :
    (shiftOut p list).length = list.length := by
  have fewer := List.length_filter_le (fun x => !p x) list
  rw [shiftOut, List.length_append, List.length_drop]
  omega

theorem shiftOut_subset (p : α → Bool) (list : List α) : shiftOut p list ⊆ list := by
  intro x member
  rcases List.mem_append.mp member with kept | behind
  · exact List.mem_of_mem_filter kept
  · exact List.mem_of_mem_drop behind

/-- As many elements of a list, without one of its keys: another key stands there twice. -/
theorem not_nodup_of_lost
    (sameLength : result.length = list.length)
    (within : result ⊆ list)
    (there : lost ∈ list)
    (gone : ∀ x ∈ result, key x ≠ key lost) :
    ¬(result.map key).Nodup := by
  classical
  intro nodup
  have others : result.map key ⊆ (list.map key).filter fun other => other ≠ key lost := by
    intro other member
    obtain ⟨x, inResult, rfl⟩ := List.mem_map.mp member
    exact List.mem_filter.mpr (And.intro (List.mem_map_of_mem (within inResult))
      (decide_eq_true (gone x inResult)))
  have fewer := (List.subperm_of_subset nodup others).length_le
  have shorter : ((list.map key).filter fun other => other ≠ key lost).length <
      (list.map key).length :=
    List.length_filter_lt_length_iff_exists.mpr ⟨key lost, List.mem_map_of_mem there, by simp⟩
  rw [List.length_map] at fewer shorter
  omega

/-- An assignment replaces one part of what is in a place and leaves the other. -/
structure PartialAssign (assign : α → α → α) : Prop where
  self : ∀ x, assign x x = x
  source : ∀ place other x, assign place (assign other x) = assign place x
  target : ∀ place other x, assign (assign place other) x = assign place x

variable (assign : α → α → α)

/-- Remove the first element: each later one is assigned to the place before it. -/
def eraseFirst : List α → List α
  | [] => []
  | [_] => []
  | place :: next :: rest => assign place next :: eraseFirst (next :: rest)

/-- Go through a sequence and remove elements from it; what is done with a removed one is noted.
The number bounds the elements that are visited. -/
def eraseLoop {σ : Type*} (removed : α → Bool) (note : α → σ → σ) :
    Nat → List α → σ → List α × σ
  | 0, elements, state => (elements, state)
  | _ + 1, [], state => ([], state)
  | visits + 1, element :: rest, state =>
    if removed element then
      eraseLoop removed note visits (eraseFirst assign (element :: rest)) (note element state)
    else
      let after := eraseLoop removed note visits rest state
      (element :: after.1, after.2)

variable {assign}

theorem PartialAssign.zipWith_self (lawful : PartialAssign assign) (elements : List α) :
    List.zipWith assign elements elements = elements := by
  induction elements with
  | nil => rfl
  | cons element rest ih =>
    rw [List.zipWith_cons_cons, lawful.self, ih]

theorem PartialAssign.eraseFirst_zipWith
    (lawful : PartialAssign assign)
    (places values : List α) (first : α)
    (room : values.length < places.length) :
    eraseFirst assign (List.zipWith assign places (first :: values)) =
      List.zipWith assign places values := by
  induction values generalizing places first with
  | nil =>
    cases places with
    | nil => rfl
    | cons place rest =>
      rw [List.zipWith_cons_cons, List.zipWith_nil_right, List.zipWith_nil_right, eraseFirst]
  | cons second values ih =>
    obtain ⟨place, next, rest, rfl⟩ : ∃ place next rest, places = place :: next :: rest := by
      cases places with
      | nil => cases room
      | cons place others =>
        cases others with
        | nil => exact absurd (Nat.lt_of_succ_lt_succ room) (Nat.not_lt_zero _)
        | cons next rest => exact ⟨place, next, rest, rfl⟩
    have moved := ih (next :: rest) second (Nat.lt_of_succ_lt_succ room)
    rw [List.zipWith_cons_cons] at moved
    rw [List.zipWith_cons_cons, List.zipWith_cons_cons, eraseFirst, moved,
      List.zipWith_cons_cons, lawful.source, lawful.target]

/-- The loop leaves the values that stay in the first places, and notes the others in their
order. -/
theorem PartialAssign.eraseLoop_zipWith
    {σ : Type*} {removed : α → Bool} {note : α → σ → σ}
    (lawful : PartialAssign assign)
    (removedPart : ∀ place x, removed (assign place x) = removed x)
    (notedPart : ∀ place x, note (assign place x) = note x)
    (visits : Nat) (places values : List α) (state : σ)
    (room : values.length ≤ places.length)
    (enough : values.length ≤ visits) :
    eraseLoop assign removed note visits (List.zipWith assign places values) state =
      (List.zipWith assign places (values.filter fun x => !removed x),
        (values.filter removed).foldl (fun state x => note x state) state) := by
  induction visits generalizing places values state with
  | zero =>
    obtain rfl := List.eq_nil_of_length_eq_zero (Nat.le_zero.mp enough)
    rw [List.zipWith_nil_right, eraseLoop]
    simp
  | succ visits ih =>
    cases values with
    | nil =>
      rw [List.zipWith_nil_right, eraseLoop]
      simp
    | cons first values =>
      obtain ⟨place, rest, rfl⟩ := List.exists_cons_of_length_pos
        (Nat.lt_of_lt_of_le (Nat.succ_pos values.length) room)
      have erased := lawful.eraseFirst_zipWith (place :: rest) values first room
      have bound := Nat.le_of_succ_le_succ enough
      rw [List.zipWith_cons_cons] at erased ⊢
      rw [eraseLoop, removedPart, notedPart]
      cases leaves : removed first with
      | true =>
        have onward := ih (place :: rest) values (note first state) (Nat.le_of_succ_le room) bound
        rw [if_pos rfl, erased, onward, List.filter_cons_of_pos leaves, List.foldl_cons,
          List.filter_cons_of_neg (by simp [leaves])]
      | false =>
        have onward := ih rest values state (Nat.le_of_succ_le_succ room) bound
        simp only [Bool.false_eq_true, if_false, onward]
        rw [List.filter_cons_of_pos (by simp [leaves]),
          List.filter_cons_of_neg (by simp [leaves]), List.zipWith_cons_cons]

/-- Values are whole in some places exactly when each of them fits what its place keeps. -/
theorem zipWith_eq_iff
    (room : values.length ≤ places.length) :
    List.zipWith assign places values = values ↔
      ∀ pair ∈ places.zip values, assign pair.1 pair.2 = pair.2 := by
  induction values generalizing places with
  | nil => simp
  | cons first values ih =>
    obtain ⟨place, rest, rfl⟩ := List.exists_cons_of_length_pos
      (Nat.lt_of_lt_of_le (Nat.succ_pos values.length) room)
    rw [List.zipWith_cons_cons, List.zip_cons_cons, List.forall_mem_cons, List.cons_eq_cons,
      ih (Nat.le_of_succ_le_succ room)]

end ShiftedRemoval
