import Mathlib.Algebra.BigOperators.Group.List.Basic
import Mathlib.Data.List.Induction
import Mathlib.Data.List.Nodup
import Mathlib.Order.Lattice

/-!
# Maps in the order of their keys

A finite map as the list of its entries, with keys that strictly increase: what an
ordered tree map shows to a program that looks up, inserts, erases and iterates.
-/

/-- A finite map whose entries are listed in the order of their keys. -/
structure SortedMap (Key Value : Type*) [LinearOrder Key] where
  entries : List (Key × Value)
  sorted : entries.Pairwise fun first second => first.1 < second.1

namespace SortedMap

variable [LinearOrder Key]

theorem eq_of_entries_eq
    {first second : SortedMap Key Value}
    (same : first.entries = second.entries) :
    first = second := by
  cases first
  cases second
  cases same
  rfl

/-- The map without entries. -/
def empty : SortedMap Key Value where
  entries := []
  sorted := .nil

/-- The value under a key. -/
def get? (map : SortedMap Key Value) (key : Key) : Option Value :=
  map.entries.lookup key

/-- There is a value under a key. -/
def contains (map : SortedMap Key Value) (key : Key) : Bool :=
  (map.get? key).isSome

/-- The number of entries. -/
def size (map : SortedMap Key Value) : Nat :=
  map.entries.length

/-- Put a value under a key, in the place of the one that stood there. -/
def insert (map : SortedMap Key Value) (key : Key) (value : Value) :
    SortedMap Key Value where
  entries :=
    map.entries.filter (fun entry => entry.1 < key) ++
      (key, value) :: map.entries.filter (fun entry => key < entry.1)
  sorted := by
    rw [List.pairwise_append, List.pairwise_cons]
    refine ⟨map.sorted.filter _, ⟨?_, map.sorted.filter _⟩, ?_⟩
    · intro entry member
      exact of_decide_eq_true (List.mem_filter.mp member).2
    · intro first below second above
      have firstBelow : first.1 < key := of_decide_eq_true (List.mem_filter.mp below).2
      rcases List.mem_cons.mp above with rfl | above
      · exact firstBelow
      · have secondAbove : key < second.1 := of_decide_eq_true (List.mem_filter.mp above).2
        exact lt_trans firstBelow secondAbove

/-- Drop the entry under a key, if there is one. -/
def erase (map : SortedMap Key Value) (key : Key) : SortedMap Key Value where
  entries := map.entries.filter fun entry => entry.1 ≠ key
  sorted := map.sorted.filter _

@[simp] theorem entries_empty : (empty : SortedMap Key Value).entries = [] := rfl

@[simp] theorem get?_empty (key : Key) : (empty : SortedMap Key Value).get? key = none := rfl

@[simp] theorem size_empty : (empty : SortedMap Key Value).size = 0 := rfl

/-- A list in the order of its keys has one entry for a key. -/
theorem lookup_eq_some_iff
    {entries : List (Key × Value)}
    (sorted : entries.Pairwise fun first second => first.1 < second.1)
    (key : Key) (value : Value) :
    entries.lookup key = some value ↔ (key, value) ∈ entries := by
  induction entries with
  | nil => simp
  | cons entry rest ih =>
    obtain ⟨above, restSorted⟩ := List.pairwise_cons.mp sorted
    obtain ⟨entryKey, entryValue⟩ := entry
    rw [List.lookup_cons, List.mem_cons]
    by_cases found : key = entryKey
    · subst found
      have absent : (key, value) ∉ rest := by
        intro member
        exact lt_irrefl key (above _ member)
      simp [absent, eq_comm]
    · have differ : (key == entryKey) = false := by simpa using found
      simp [differ, found, ih restSorted]

theorem get?_eq_some_iff (map : SortedMap Key Value) (key : Key) (value : Value) :
    map.get? key = some value ↔ (key, value) ∈ map.entries :=
  lookup_eq_some_iff map.sorted key value

theorem mem_entries_insert
    (map : SortedMap Key Value) (key : Key) (value : Value) (entry : Key × Value) :
    entry ∈ (map.insert key value).entries ↔
      entry = (key, value) ∨ entry.1 ≠ key ∧ entry ∈ map.entries := by
  simp only [insert, List.mem_append, List.mem_cons, List.mem_filter, decide_eq_true_eq]
  have apart : entry.1 ≠ key ↔ entry.1 < key ∨ key < entry.1 := ne_iff_lt_or_gt
  tauto

theorem mem_entries_erase (map : SortedMap Key Value) (key : Key) (entry : Key × Value) :
    entry ∈ (map.erase key).entries ↔ entry.1 ≠ key ∧ entry ∈ map.entries := by
  simp [erase, and_comm]

theorem get?_insert
    (map : SortedMap Key Value) (key : Key) (value : Value) (other : Key) :
    (map.insert key value).get? other = if other = key then some value else map.get? other := by
  ext found
  rw [get?_eq_some_iff, mem_entries_insert]
  split_ifs with same
  · simp [same, eq_comm]
  · simp [same, get?_eq_some_iff]

theorem get?_erase (map : SortedMap Key Value) (key other : Key) :
    (map.erase key).get? other = if other = key then none else map.get? other := by
  ext found
  rw [get?_eq_some_iff, mem_entries_erase]
  split_ifs with same
  · simp [same]
  · simp [same, get?_eq_some_iff]

@[simp] theorem get?_insert_self (map : SortedMap Key Value) (key : Key) (value : Value) :
    (map.insert key value).get? key = some value := by
  simp [get?_insert]

@[simp] theorem get?_erase_self (map : SortedMap Key Value) (key : Key) :
    (map.erase key).get? key = none := by
  simp [get?_erase]

/-- Erase one key after another. -/
def eraseAll (map : SortedMap Key Value) (keys : List Key) : SortedMap Key Value :=
  keys.foldl erase map

theorem entries_eraseAll (map : SortedMap Key Value) (keys : List Key) :
    (map.eraseAll keys).entries = map.entries.filter fun entry => entry.1 ∉ keys := by
  induction keys generalizing map with
  | nil => simp [eraseAll]
  | cons key keys ih =>
    change ((map.erase key).eraseAll keys).entries = _
    rw [ih, erase, List.filter_filter]
    refine List.filter_congr fun entry _ => ?_
    simp [Bool.and_comm]

theorem get?_eraseAll (map : SortedMap Key Value) (keys : List Key) (other : Key) :
    (map.eraseAll keys).get? other = if other ∈ keys then none else map.get? other := by
  ext found
  rw [get?_eq_some_iff, entries_eraseAll, List.mem_filter, decide_eq_true_eq]
  split_ifs with erased
  · simp [erased]
  · simp [erased, get?_eq_some_iff]

variable {map : SortedMap Key Value}

/-- Erasing only takes entries away. -/
theorem get?_of_erase
    (found : (map.erase key).get? other = some value) :
    map.get? other = some value := by
  rw [get?_erase] at found
  split_ifs at found
  exact found

theorem nodup_entries (map : SortedMap Key Value) : map.entries.Nodup := by
  apply map.sorted.imp
  intro first second below same
  rw [same] at below
  exact lt_irrefl _ below

theorem nodup_keys (map : SortedMap Key Value) : (map.entries.map Prod.fst).Nodup := by
  apply List.pairwise_map.mpr
  exact map.sorted.imp fun below => ne_of_lt below

theorem entries_eraseAll_filter (map : SortedMap Key Value) (p : Key × Value → Bool) :
    (map.eraseAll ((map.entries.filter p).map Prod.fst)).entries =
      map.entries.filter fun entry => !p entry := by
  rw [entries_eraseAll]
  refine List.filter_congr fun entry member => ?_
  have own : entry.1 ∈ (map.entries.filter p).map Prod.fst ↔ p entry = true := by
    constructor
    · intro erased
      obtain ⟨other, kept, same⟩ := List.mem_map.mp erased
      obtain ⟨there, holds⟩ := List.mem_filter.mp kept
      have found := (map.get?_eq_some_iff other.1 other.2).mpr there
      rw [same, (map.get?_eq_some_iff entry.1 entry.2).mpr member] at found
      rwa [Prod.ext same (Option.some.inj found).symm] at holds
    · intro holds
      exact List.mem_map_of_mem (List.mem_filter.mpr ⟨member, holds⟩)
  simp [own]

theorem get?_eq_none_of_above
    (above : ∀ entry ∈ map.entries, entry.1 < key) :
    map.get? key = none := by
  rw [Option.eq_none_iff_forall_ne_some]
  intro value found
  exact lt_irrefl key (above _ ((get?_eq_some_iff map key value).mp found))

theorem entries_insert_of_above
    (above : ∀ entry ∈ map.entries, entry.1 < key) (value : Value) :
    (map.insert key value).entries = map.entries ++ [(key, value)] := by
  have all : map.entries.filter (fun entry => entry.1 < key) = map.entries :=
    List.filter_eq_self.mpr fun entry member => decide_eq_true (above entry member)
  have none : map.entries.filter (fun entry => key < entry.1) = [] := by
    rw [List.filter_eq_nil_iff]
    intro entry member
    simpa using le_of_lt (above entry member)
  simp only [insert, all, none]

theorem entries_insert_perm
    (fresh : map.get? key = none) (value : Value) :
    (map.insert key value).entries.Perm ((key, value) :: map.entries) := by
  have absent : (key, value) ∉ map.entries := by
    rw [← get?_eq_some_iff, fresh]
    simp
  rw [List.perm_ext_iff_of_nodup (nodup_entries _)
    (List.nodup_cons.mpr ⟨absent, map.nodup_entries⟩)]
  intro entry
  rw [mem_entries_insert, List.mem_cons]
  apply or_congr_right
  apply and_iff_right_of_imp
  rintro member rfl
  rw [(map.get?_eq_some_iff entry.1 entry.2).mpr member] at fresh
  cases fresh

/-- Up to order, erasing a key takes its entry away. -/
theorem entries_erase_perm
    (found : map.get? key = some value) :
    map.entries.Perm ((key, value) :: (map.erase key).entries) := by
  have absent : (key, value) ∉ (map.erase key).entries := by
    simp [mem_entries_erase]
  rw [List.perm_ext_iff_of_nodup map.nodup_entries (List.nodup_cons.mpr ⟨absent, nodup_entries _⟩)]
  rintro ⟨entryKey, entryValue⟩
  rw [List.mem_cons, mem_entries_erase, ← get?_eq_some_iff]
  by_cases same : entryKey = key
  · subst same
    simp [found, eq_comm]
  · simp [same]

theorem size_erase_lt
    (found : map.get? key = some value) :
    (map.erase key).size < map.size := by
  have counted := (entries_erase_perm found).length_eq
  rw [List.length_cons] at counted
  unfold size
  omega

end SortedMap

/-!
## Maps and their contents

A map is determined by what lies under its keys, so the order in which different keys were
inserted does not show.  Values can be changed all at once.
-/

namespace SortedMap

variable [LinearOrder Key]

/-- Maps with the same values under all keys are the same. -/
theorem eq_of_get?
    {first second : SortedMap Key Value}
    (same : ∀ key, first.get? key = second.get? key) :
    first = second := by
  apply eq_of_entries_eq
  have perm : first.entries.Perm second.entries := by
    rw [List.perm_ext_iff_of_nodup (nodup_entries _) (nodup_entries _)]
    rintro ⟨key, value⟩
    rw [← get?_eq_some_iff, ← get?_eq_some_iff, same]
  refine perm.eq_of_pairwise ?_ first.sorted second.sorted
  intro entry other _ _ below above
  exact absurd (lt_trans below above) (lt_irrefl _)

/-- Values under different keys may be put in in either order. -/
theorem insert_comm
    {key other : Key}
    (apart : key ≠ other)
    (map : SortedMap Key Value) (value another : Value) :
    (map.insert key value).insert other another = (map.insert other another).insert key value := by
  apply eq_of_get?
  intro wanted
  simp only [get?_insert]
  by_cases here : wanted = key
  · rw [if_pos here, if_neg (here ▸ apart), if_pos here]
  · rw [if_neg here, if_neg here]

/-- The map that arrivals leave. -/
def ofArrivals (arrivals : List (Key × Value)) : SortedMap Key Value :=
  arrivals.foldl (fun map entry => map.insert entry.1 entry.2) empty

/-- The order of arrivals with different keys does not matter. -/
theorem ofArrivals_perm
    {arrivals others : List (Key × Value)}
    (perm : arrivals.Perm others)
    (distinct : (arrivals.map Prod.fst).Nodup) :
    ofArrivals arrivals = ofArrivals others := by
  apply perm.foldl_eq'
  intro first firstMember second secondMember map
  by_cases apart : first.1 = second.1
  · rw [List.inj_on_of_nodup_map distinct firstMember secondMember apart]
  · exact insert_comm apart map first.2 second.2

/-- What lies under a key has arrived under it. -/
theorem mem_of_ofArrivals
    {key : Key}
    (found : (ofArrivals arrivals).get? key = some value) :
    (key, value) ∈ arrivals := by
  induction arrivals using List.reverseRecOn with
  | nil => cases found
  | append_singleton past entry ih =>
    unfold ofArrivals at found ih
    rw [List.foldl_append, List.foldl_cons, List.foldl_nil, get?_insert] at found
    rw [List.mem_append]
    split_ifs at found with here
    · right
      rw [here, ← Option.some_inj.mp found]
      exact List.mem_singleton_self entry
    · left
      exact ih found

/-- Change every value. -/
def mapValues (change : Value → Image) (map : SortedMap Key Value) : SortedMap Key Image where
  entries := map.entries.map fun entry => (entry.1, change entry.2)
  sorted := List.pairwise_map.mpr map.sorted

theorem get?_mapValues (change : Value → Image) (map : SortedMap Key Value) (key : Key) :
    (map.mapValues change).get? key = (map.get? key).map change := by
  ext image
  rw [get?_eq_some_iff, Option.map_eq_some_iff]
  constructor
  · intro member
    obtain ⟨⟨here, value⟩, standing, same⟩ := List.mem_map.mp member
    cases same
    exact ⟨value, (get?_eq_some_iff map here value).mpr standing, rfl⟩
  · rintro ⟨value, found, rfl⟩
    exact List.mem_map.mpr ⟨(key, value), (get?_eq_some_iff map key value).mp found, rfl⟩

theorem mapValues_erase (change : Value → Image) (map : SortedMap Key Value) (key : Key) :
    (map.erase key).mapValues change = (map.mapValues change).erase key := by
  apply eq_of_get?
  intro wanted
  rw [get?_mapValues, get?_erase, get?_erase, get?_mapValues]
  split_ifs
  · rfl
  · rfl

end SortedMap

/-!
## Sums over the values of a map

What the values of a map come to when each counts for something, and how inserting and
erasing a key change that sum.
-/

namespace SortedMap

variable [LinearOrder Key] [AddCommMonoid Amount]

/-- The sum of what the values of a map count for. -/
def total (measure : Value → Amount) (map : SortedMap Key Value) : Amount :=
  (map.entries.map fun entry => measure entry.2).sum

theorem total_insert_of_fresh
    {map : SortedMap Key Value}
    (fresh : map.get? key = none)
    (measure : Value → Amount) (value : Value) :
    (map.insert key value).total measure = measure value + map.total measure := by
  unfold total
  rw [((entries_insert_perm fresh value).map fun entry => measure entry.2).sum_eq]
  rw [List.map_cons, List.sum_cons]

theorem total_erase_of_found
    {map : SortedMap Key Value}
    (found : map.get? key = some value)
    (measure : Value → Amount) :
    map.total measure = measure value + (map.erase key).total measure := by
  unfold total
  rw [((entries_erase_perm found).map fun entry => measure entry.2).sum_eq]
  rw [List.map_cons, List.sum_cons]

/-- What stood under a key makes no difference to inserting it. -/
theorem insert_erase (map : SortedMap Key Value) (key : Key) (value : Value) :
    (map.erase key).insert key value = map.insert key value := by
  have below : (map.entries.filter fun entry => entry.1 ≠ key).filter (fun entry => entry.1 < key) =
      map.entries.filter fun entry => entry.1 < key := by
    rw [List.filter_filter]
    apply List.filter_congr
    intro entry _
    by_cases before : entry.1 < key
    · simp [before, before.ne]
    · simp [before]
  have above : (map.entries.filter fun entry => entry.1 ≠ key).filter (fun entry => key < entry.1) =
      map.entries.filter fun entry => key < entry.1 := by
    rw [List.filter_filter]
    apply List.filter_congr
    intro entry _
    by_cases after : key < entry.1
    · simp [after, after.ne']
    · simp [after]
  apply eq_of_entries_eq
  simp only [insert, erase, below, above]

/-- A value in the place of another counts instead of it. -/
theorem total_insert_of_found
    {map : SortedMap Key Value}
    (found : map.get? key = some old)
    (measure : Value → Amount) (value : Value) :
    measure old + (map.insert key value).total measure = measure value + map.total measure := by
  have fresh : (map.erase key).get? key = none := get?_erase_self map key
  rw [total_erase_of_found found, ← insert_erase, total_insert_of_fresh fresh]
  exact add_left_comm _ _ _

theorem total_countP (kind : Value → Bool) (map : SortedMap Key Value) :
    map.total (fun value => if kind value then (1 : Int) else 0) =
      map.entries.countP fun entry => kind entry.2 := by
  unfold total
  induction map.entries with
  | nil => rfl
  | cons entry rest ih =>
    rw [List.map_cons, List.sum_cons, ih, List.countP_cons]
    dsimp only
    split_ifs
    · rw [Int.natCast_add, Int.natCast_one]
      exact Int.add_comm _ _
    · rw [Nat.add_zero, Int.zero_add]

end SortedMap
