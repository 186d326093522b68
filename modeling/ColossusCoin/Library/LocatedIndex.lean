import Mathlib.Logic.Basic

/-!
# Indexes of located items

Owners hold items, each at a place of its own, and an index says under the key of an item who
holds it and where.  The index stays right while items are taken from their places, owners leave
with all that they hold, and items are added at new places under new keys.
-/

/-- What is held stands in the index, and what stands in the index is held: by one owner only,
and alone at its place. -/
structure IsIndex (key : Item → Key) (Holds : Owner → Place → Item → Prop)
    (index : Key → Option (Owner × Place)) : Prop where
  filed : ∀ {wanted owner place}, index wanted = some (owner, place) →
    ∃ item, key item = wanted ∧ Holds owner place item
  recorded : ∀ {owner place item}, Holds owner place item →
    index (key item) = some (owner, place)
  alone : ∀ {owner other place item another}, Holds owner place item →
    Holds other place another → other = owner ∧ another = item

namespace IsIndex

/-- Nothing is held. -/
theorem empty : IsIndex key (fun (_ : Owner) (_ : Place) _ => False) fun _ => none where
  filed := by
    intro wanted owner place found
    cases found
  recorded := False.elim
  alone := False.elim

/-- What stands in the index is held by this owner and by no other, and nothing else is at its
place. -/
theorem located
    (indexed : IsIndex key Holds index)
    (found : index wanted = some (owner, place)) :
    ∃ item, key item = wanted ∧
      ∀ other another, Holds other place another ↔ other = owner ∧ another = item := by
  obtain ⟨item, here, held⟩ := indexed.filed found
  refine ⟨item, here, fun other another => ?_⟩
  constructor
  · exact indexed.alone held
  · rintro ⟨rfl, rfl⟩
    exact held

theorem congr
    (indexed : IsIndex key Holds index)
    (holds : ∀ owner place item, Holds' owner place item ↔ Holds owner place item) :
    IsIndex key Holds' index := by
  have same : Holds' = Holds := by
    funext owner place item
    exact propext (holds owner place item)
  rw [same]
  exact indexed

theorem taken
    (indexed : IsIndex key Holds index)
    (held : Holds owner place item)
    (holds : ∀ other elsewhere another,
      Holds' other elsewhere another ↔ Holds other elsewhere another ∧ elsewhere ≠ place)
    (erased : index' (key item) = none)
    (kept : ∀ wanted, wanted ≠ key item → index' wanted = index wanted) :
    IsIndex key Holds' index' where
  filed := by
    intro wanted other elsewhere found
    have apart : wanted ≠ key item := by
      rintro rfl
      rw [erased] at found
      cases found
    rw [kept wanted apart] at found
    obtain ⟨another, here, there⟩ := indexed.filed found
    refine ⟨another, here, (holds other elsewhere another).mpr ⟨there, ?_⟩⟩
    rintro rfl
    rw [← here, (indexed.alone held there).2] at apart
    exact apart rfl
  recorded := by
    intro other elsewhere another there
    obtain ⟨before, moved⟩ := (holds other elsewhere another).mp there
    have found := indexed.recorded before
    rw [kept (key another), found]
    intro same
    rw [same, indexed.recorded held] at found
    cases found
    exact moved rfl
  alone := by
    intro first second elsewhere one another there here
    exact indexed.alone ((holds first elsewhere one).mp there).1
      ((holds second elsewhere another).mp here).1

/-- An owner leaves, and the keys of all that it held are erased. -/
theorem left
    (indexed : IsIndex key Holds index)
    (holds : ∀ other place item, Holds' other place item ↔ Holds other place item ∧ other ≠ owner)
    (erased : ∀ place item, Holds owner place item → index' (key item) = none)
    (kept : ∀ wanted, (∀ place item, Holds owner place item → wanted ≠ key item) →
      index' wanted = index wanted)
    (less : ∀ wanted found, index' wanted = some found → index wanted = some found) :
    IsIndex key Holds' index' where
  filed := by
    intro wanted other place found
    obtain ⟨item, here, held⟩ := indexed.filed (less wanted (other, place) found)
    refine ⟨item, here, (holds other place item).mpr ⟨held, ?_⟩⟩
    rintro rfl
    rw [← here, erased place item held] at found
    cases found
  recorded := by
    intro other place item there
    obtain ⟨held, stays⟩ := (holds other place item).mp there
    have found := indexed.recorded held
    rw [kept (key item), found]
    intro elsewhere another gone same
    rw [same, indexed.recorded gone] at found
    cases found
    exact stays rfl
  alone := by
    intro first second place one another there here
    exact indexed.alone ((holds first place one).mp there).1
      ((holds second place another).mp here).1

theorem added
    (indexed : IsIndex key Holds index)
    (newPlace : ∀ other another, ¬Holds other place another)
    (newKey : index (key item) = none)
    (holds : ∀ other elsewhere another, Holds' other elsewhere another ↔
      Holds other elsewhere another ∨ other = owner ∧ elsewhere = place ∧ another = item)
    (inserted : index' (key item) = some (owner, place))
    (kept : ∀ wanted, wanted ≠ key item → index' wanted = index wanted) :
    IsIndex key Holds' index' where
  filed := by
    intro wanted other elsewhere found
    by_cases here : wanted = key item
    · rw [here, inserted] at found
      cases found
      exact ⟨item, here.symm, (holds owner place item).mpr (.inr ⟨rfl, rfl, rfl⟩)⟩
    · rw [kept wanted here] at found
      obtain ⟨another, same, held⟩ := indexed.filed found
      exact ⟨another, same, (holds other elsewhere another).mpr (.inl held)⟩
  recorded := by
    intro other elsewhere another there
    rcases (holds other elsewhere another).mp there with held | ⟨rfl, rfl, rfl⟩
    · have found := indexed.recorded held
      rw [kept (key another), found]
      intro same
      rw [same, newKey] at found
      cases found
    · exact inserted
  alone := by
    intro first second elsewhere one another there here
    rcases (holds first elsewhere one).mp there with held | ⟨rfl, rfl, rfl⟩
    · rcases (holds second elsewhere another).mp here with also | ⟨rfl, rfl, rfl⟩
      · exact indexed.alone held also
      · exact absurd held (newPlace first one)
    · rcases (holds second elsewhere another).mp here with also | ⟨same, _, alike⟩
      · exact absurd also (newPlace second another)
      · exact ⟨same, alike⟩

end IsIndex
