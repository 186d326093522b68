import Mathlib.Data.List.AList

/-!
# Lists looked up by a key

A list whose elements carry keys, as a table without an index: the first element with a key
is the one that is found, changed in its place and removed.  While the keys are distinct,
such a list behaves as a map.
-/

namespace KeyedList

variable {α κ : Type*} [DecidableEq κ]

/-- The first element with a key. -/
def find (key : α → κ) (wanted : κ) (elements : List α) : Option α :=
  elements.find? fun element => key element = wanted

/-- Change the first element with a key in its place. -/
def modify (key : α → κ) (wanted : κ) (change : α → α) : List α → List α
  | [] => []
  | element :: rest =>
    if key element = wanted then change element :: rest
    else element :: modify key wanted change rest

/-- Remove the first element with a key. -/
def erase (key : α → κ) (wanted : κ) (elements : List α) : List α :=
  elements.eraseP fun element => key element = wanted

/-- No key occurs twice. -/
def Distinct (key : α → κ) (elements : List α) : Prop :=
  (elements.map key).Nodup

variable {key : α → κ} {wanted other : κ} {elements : List α} {change : α → α}

theorem find_cons (element : α) (rest : List α) :
    find key wanted (element :: rest) =
      if key element = wanted then some element else find key wanted rest := by
  unfold find
  rw [List.find?_cons]
  by_cases found : key element = wanted
  · simp [found, decide_true]
  · simp [found, decide_false]

theorem erase_cons (element : α) (rest : List α) :
    erase key wanted (element :: rest) =
      if key element = wanted then rest else element :: erase key wanted rest := by
  unfold erase
  rw [List.eraseP_cons]
  by_cases found : key element = wanted
  · simp [found, decide_true, cond_true]
  · simp [found, decide_false, cond_false]

theorem key_of_find
    (found : find key wanted elements = some element) :
    key element = wanted := by
  simpa using List.find?_some found

theorem mem_of_find
    (found : find key wanted elements = some element) :
    element ∈ elements :=
  List.mem_of_find?_eq_some found

theorem find_eq_none_iff :
    find key wanted elements = none ↔ wanted ∉ elements.map key := by
  unfold find
  simp [decide_eq_true_iff, not_exists, not_and]

omit [DecidableEq κ] in
theorem Distinct.eq_of_key
    (distinct : Distinct key elements)
    (firstMember : first ∈ elements)
    (secondMember : second ∈ elements)
    (same : key first = key second) :
    first = second :=
  List.inj_on_of_nodup_map distinct firstMember secondMember same

/-- While the keys are distinct, what is found under a key is the element with it. -/
theorem Distinct.find_eq_some_iff
    (distinct : Distinct key elements)
    {element : α} :
    find key wanted elements = some element ↔ element ∈ elements ∧ key element = wanted := by
  refine Iff.intro (fun found => ⟨mem_of_find found, key_of_find found⟩) ?_
  rintro ⟨member, here⟩
  rcases Option.eq_none_or_eq_some (find key wanted elements) with absent | ⟨other, found⟩
  · rw [find_eq_none_iff, ← here] at absent
    exact absurd (List.mem_map_of_mem member) absent
  · rw [found, distinct.eq_of_key member (mem_of_find found) (here.trans (key_of_find found).symm)]

/-- While the keys are distinct, the order of the elements does not matter. -/
theorem Distinct.find_perm
    (distinct : Distinct key elements)
    (perm : others.Perm elements) :
    find key wanted others = find key wanted elements := by
  have othersDistinct : Distinct key others := (perm.map key).nodup_iff.mpr distinct
  refine Option.ext fun element => ?_
  rw [othersDistinct.find_eq_some_iff, distinct.find_eq_some_iff, perm.mem_iff]

theorem map_key_modify
    (keeps : ∀ element, key element = wanted → key (change element) = wanted) :
    (modify key wanted change elements).map key = elements.map key := by
  induction elements with
  | nil => rfl
  | cons element rest ih =>
    rw [modify]
    split_ifs with found
    · rw [List.map_cons, List.map_cons, keeps element found, found]
    · rw [List.map_cons, List.map_cons, ih]

theorem find_modify_self
    (keeps : ∀ element, key element = wanted → key (change element) = wanted) :
    find key wanted (modify key wanted change elements) =
      (find key wanted elements).map change := by
  induction elements with
  | nil => rfl
  | cons element rest ih =>
    rw [modify, find_cons]
    split_ifs with found
    · rw [find_cons, if_pos (keeps element found), Option.map_some]
    · rw [find_cons, if_neg found, ih]

theorem find_modify_of_ne
    (keeps : ∀ element, key element = wanted → key (change element) = wanted)
    (apart : other ≠ wanted) :
    find key other (modify key wanted change elements) = find key other elements := by
  induction elements with
  | nil => rfl
  | cons element rest ih =>
    rw [modify]
    split_ifs with found
    · have before : key element ≠ other := fun same => apart (same.symm.trans found)
      have afterwards : key (change element) ≠ other := fun same =>
        apart (same.symm.trans (keeps element found))
      rw [find_cons, find_cons, if_neg before, if_neg afterwards]
    · rw [find_cons, find_cons, ih]

theorem mem_modify
    (member : element ∈ modify key wanted change elements) :
    element ∈ elements ∨ ∃ old, find key wanted elements = some old ∧ element = change old := by
  induction elements with
  | nil => exact Or.inl member
  | cons first rest ih =>
    rw [modify] at member
    rw [find_cons]
    split_ifs at member with found
    · rw [if_pos found]
      rcases List.mem_cons.mp member with rfl | member
      · exact Or.inr ⟨first, rfl, rfl⟩
      · exact Or.inl (List.mem_cons_of_mem first member)
    · rw [if_neg found]
      rcases List.mem_cons.mp member with rfl | member
      · exact Or.inl List.mem_cons_self
      · exact (ih member).imp_left (List.mem_cons_of_mem first)

theorem Distinct.modify
    (distinct : Distinct key elements)
    (keeps : ∀ element, key element = wanted → key (change element) = wanted) :
    Distinct key (modify key wanted change elements) := by
  unfold Distinct
  rw [map_key_modify keeps]
  exact distinct

theorem find_snoc (element : α) :
    find key wanted (elements ++ [element]) =
      match find key wanted elements with
      | some found => some found
      | none => if key element = wanted then some element else none := by
  have single : find key wanted [element] =
      if key element = wanted then some element else none := by
    rw [find_cons]
    rfl
  unfold find at single ⊢
  rw [List.find?_append, single]
  cases elements.find? fun element => key element = wanted <;> rfl

theorem Distinct.snoc
    (distinct : Distinct key elements)
    (fresh : find key (key element) elements = none) :
    Distinct key (elements ++ [element]) := by
  unfold Distinct
  rw [List.map_append, List.map_singleton, List.nodup_append]
  refine ⟨distinct, List.nodup_singleton _, ?_⟩
  intro first member second single same
  rw [List.mem_singleton] at single
  rw [find_eq_none_iff] at fresh
  exact fresh (single ▸ same ▸ member)

theorem erase_of_notMem
    (absent : wanted ∉ elements.map key) :
    erase key wanted elements = elements := by
  refine List.eraseP_of_forall_not ?_
  intro element member
  rw [decide_eq_true_iff]
  exact fun same => absent (same ▸ List.mem_map_of_mem member)

theorem find_erase_of_ne
    (apart : other ≠ wanted) :
    find key other (erase key wanted elements) = find key other elements := by
  induction elements with
  | nil => rfl
  | cons element rest ih =>
    rw [erase_cons, find_cons]
    split_ifs with found here
    · exact absurd (here.symm.trans found) apart
    · rfl
    · rw [find_cons, if_pos ‹_›]
    · rw [find_cons, if_neg ‹_›, ih]

theorem find_erase_self
    (distinct : Distinct key elements) :
    find key wanted (erase key wanted elements) = none := by
  induction elements with
  | nil => rfl
  | cons element rest ih =>
    obtain ⟨absent, restDistinct⟩ := List.nodup_cons.mp distinct
    rw [erase_cons]
    split_ifs with found
    · rw [find_eq_none_iff, ← found]
      exact absent
    · rw [find_cons, if_neg found]
      exact ih restDistinct

theorem Distinct.erase
    (distinct : Distinct key elements) :
    Distinct key (erase key wanted elements) :=
  List.Sublist.nodup (List.Sublist.map key List.eraseP_sublist) distinct

/-- Up to order, a list is the element that is found and what removing it leaves. -/
theorem perm_cons_erase
    (found : find key wanted elements = some element) :
    elements.Perm (element :: erase key wanted elements) := by
  induction elements with
  | nil => cases found
  | cons first rest ih =>
    rw [find_cons] at found
    rw [erase_cons]
    by_cases here : key first = wanted
    · rw [if_pos here] at found ⊢
      cases found
      exact .refl _
    · rw [if_neg here] at found ⊢
      exact ((ih found).cons first).trans (.swap element first _)

theorem Distinct.mem_erase
    (distinct : Distinct key elements)
    {element : α} :
    element ∈ KeyedList.erase key wanted elements ↔
      element ∈ elements ∧ key element ≠ wanted := by
  rw [← distinct.erase.find_eq_some_iff.trans (and_iff_left rfl)]
  by_cases here : key element = wanted
  · rw [here, find_erase_self distinct]
    simp
  · rw [find_erase_of_ne here, distinct.find_eq_some_iff]
    simp [here]

theorem erase_ne_self
    (found : (find key wanted elements).isSome) :
    erase key wanted elements ≠ elements := by
  obtain ⟨element, here⟩ := Option.isSome_iff_exists.mp found
  intro same
  have hit : decide (key element = wanted) = true := decide_eq_true (key_of_find here)
  have shorter : (elements.eraseP fun element => key element = wanted).length =
      elements.length - 1 :=
    List.length_eraseP_of_mem (mem_of_find here) hit
  have member := List.length_pos_of_mem (mem_of_find here)
  unfold erase at same
  rw [same] at shorter
  omega

/-- What was changed in its place is removed as it was before the change. -/
theorem erase_modify
    (keeps : ∀ element, key element = wanted → key (change element) = wanted) :
    erase key wanted (modify key wanted change elements) = erase key wanted elements := by
  induction elements with
  | nil => rfl
  | cons element rest ih =>
    rw [modify, erase_cons]
    split_ifs with found
    · rw [erase_cons, if_pos (keeps element found)]
    · rw [erase_cons, if_neg found, ih]

/-- The same element is removed by another key that tells it from the others. -/
theorem erase_eq_erase
    [DecidableEq ι] {mark : ι}
    (alike : ∀ element ∈ elements, label element = mark ↔ key element = wanted) :
    erase label mark elements = erase key wanted elements := by
  induction elements with
  | nil => rfl
  | cons element rest ih =>
    have here := alike element List.mem_cons_self
    rw [erase_cons, erase_cons,
      ih fun later member => alike later (List.mem_cons_of_mem _ member)]
    simp only [here]

section Images

variable {β : Type*} {image : α → β} {keyOfImage : β → κ}

theorem find_map
    (keeps : ∀ element, keyOfImage (image element) = key element) :
    find keyOfImage wanted (elements.map image) = (find key wanted elements).map image := by
  induction elements with
  | nil => rfl
  | cons element rest ih =>
    rw [List.map_cons, find_cons, find_cons, keeps, ih]
    split_ifs <;> rfl

theorem map_modify
    (keeps : ∀ element, keyOfImage (image element) = key element)
    (changes : ∀ element, key element = wanted →
      image (change element) = changeImage (image element)) :
    (modify key wanted change elements).map image =
      modify keyOfImage wanted changeImage (elements.map image) := by
  induction elements with
  | nil => rfl
  | cons element rest ih =>
    rw [List.map_cons, modify, modify, keeps]
    split_ifs with found
    · rw [List.map_cons, changes element found]
    · rw [List.map_cons, ih]

theorem map_erase
    (keeps : ∀ element, keyOfImage (image element) = key element) :
    (erase key wanted elements).map image = erase keyOfImage wanted (elements.map image) := by
  induction elements with
  | nil => rfl
  | cons element rest ih =>
    rw [List.map_cons, erase_cons, erase_cons, keeps]
    split_ifs with found
    · rfl
    · rw [List.map_cons, ih]

omit [DecidableEq κ] in
theorem distinct_map_iff
    (keeps : ∀ element, keyOfImage (image element) = key element) :
    Distinct keyOfImage (elements.map image) ↔ Distinct key elements := by
  have same : keyOfImage ∘ image = key := funext keeps
  unfold Distinct
  rw [List.map_map, same]

end Images

end KeyedList

/-!
## Merging a map of updates into a map of entries

A finite map takes in a map of updates key by key.  What an update does to the
entry of its own key is a function of the two; it may remove the entry, and it
may fail.  Since the keys of a map are distinct, the outcome is read off entry
by entry and does not depend on the order of the updates.
-/

namespace KeyedMerge

variable [DecidableEq κ]

/-- Store what an entry becomes, `none` removing it. -/
def put (entries : AList fun _ : κ => β) (key : κ) :
    Option β → AList fun _ : κ => β
  | none => entries.erase key
  | some value => entries.insert key value

@[simp] theorem lookup_put
    (entries : AList fun _ : κ => β) (key : κ) (value : Option β) :
    (put entries key value).lookup key = value := by
  cases value with
  | none => exact AList.lookup_erase key entries
  | some value => exact AList.lookup_insert entries

theorem lookup_put_ne
    {key other : κ}
    (different : other ≠ key) :
    (put entries key value).lookup other = entries.lookup other := by
  cases value with
  | none => exact AList.lookup_erase_ne different
  | some value => exact AList.lookup_insert_ne different

variable (combine : Option β → γ → Option (Option β))

/-- Apply the updates in their order. -/
def mergeList
    (entries : AList fun _ : κ => β) (updates : List (Sigma fun _ : κ => γ)) :
    Option (AList fun _ : κ => β) :=
  updates.foldlM (fun current update =>
    (combine (current.lookup update.1) update.2).map (put current update.1)) entries

/-- Merge a map of updates into a map of entries. -/
def merge
    (entries : AList fun _ : κ => β) (updates : AList fun _ : κ => γ) :
    Option (AList fun _ : κ => β) :=
  mergeList combine entries updates.entries

variable {combine}

theorem lookup_mergeList_of_notMem
    {key : κ}
    (absent : key ∉ updates.keys) :
    ∀ {entries merged : AList fun _ : κ => β},
      mergeList combine entries updates = some merged →
        merged.lookup key = entries.lookup key := by
  induction updates with
  | nil =>
    intro entries merged returned
    simp only [mergeList, List.foldlM_nil, Option.pure_def, Option.some.injEq] at returned
    rw [returned]
  | cons update rest ih =>
    intro entries merged returned
    rw [List.keys_cons, List.mem_cons, not_or] at absent
    simp only [mergeList, List.foldlM_cons, Option.bind_eq_bind,
      Option.bind_eq_some_iff, Option.map_eq_some_iff] at returned
    obtain ⟨_, ⟨value, _, rfl⟩, mergedRest⟩ := returned
    rw [ih absent.2 mergedRest, lookup_put_ne absent.1]

private theorem lookup_mergeList
    {updates : List (Sigma fun _ : κ => γ)}
    (distinct : updates.NodupKeys) :
    ∀ {entries merged : AList fun _ : κ => β},
      mergeList combine entries updates = some merged →
        ∀ {key : κ} {update : γ}, updates.dlookup key = some update →
          combine (entries.lookup key) update = some (merged.lookup key) := by
  induction updates with
  | nil =>
    intro entries merged _ key update found
    simp at found
  | cons head rest ih =>
    intro entries merged returned key update found
    rw [List.nodupKeys_cons] at distinct
    simp only [mergeList, List.foldlM_cons, Option.bind_eq_bind,
      Option.bind_eq_some_iff, Option.map_eq_some_iff] at returned
    obtain ⟨_, ⟨value, combined, rfl⟩, mergedRest⟩ := returned
    by_cases atHead : key = head.1
    · subst atHead
      rw [List.dlookup_cons_eq, Option.some.injEq] at found
      subst found
      have kept := lookup_mergeList_of_notMem distinct.1 mergedRest
      rw [kept, lookup_put, combined]
    · rw [List.dlookup_cons_ne _ head atHead] at found
      have inRest := ih distinct.2 mergedRest found
      rwa [lookup_put_ne atHead] at inRest

private theorem isSome_mergeList
    {updates : List (Sigma fun _ : κ => γ)}
    (distinct : updates.NodupKeys) :
    ∀ {entries : AList fun _ : κ => β},
      (∀ key update, updates.dlookup key = some update →
        (combine (entries.lookup key) update).isSome = true) →
      (mergeList combine entries updates).isSome = true := by
  induction updates with
  | nil => exact fun _ => rfl
  | cons head rest ih =>
    intro entries succeeds
    rw [List.nodupKeys_cons] at distinct
    obtain ⟨value, combined⟩ := Option.isSome_iff_exists.mp
      (succeeds head.1 head.2 (List.dlookup_cons_eq _ _ _))
    simp only [mergeList, List.foldlM_cons, combined, Option.map_some,
      Option.bind_eq_bind, Option.bind_some]
    apply ih distinct.2
    intro key update found
    have different : key ≠ head.1 := by
      intro equal
      apply distinct.1
      rw [← equal, ← List.dlookup_isSome, found]
      rfl
    rw [lookup_put_ne different]
    apply succeeds key update
    rwa [List.dlookup_cons_ne _ head different]

theorem combine_of_merge
    (returned : merge combine entries updates = some merged)
    {key : κ}
    (found : updates.lookup key = some update) :
    combine (entries.lookup key) update = some (merged.lookup key) :=
  lookup_mergeList updates.nodupKeys returned found

theorem lookup_of_merge
    (returned : merge combine entries updates = some merged)
    {key : κ}
    (absent : updates.lookup key = none) :
    merged.lookup key = entries.lookup key :=
  lookup_mergeList_of_notMem (AList.lookup_eq_none.mp absent) returned

theorem merge_isSome
    {updates : AList fun _ : κ => γ}
    (succeeds : ∀ key update, updates.lookup key = some update →
      (combine (entries.lookup key) update).isSome = true) :
    (merge combine entries updates).isSome = true :=
  isSome_mergeList updates.nodupKeys succeeds

end KeyedMerge
