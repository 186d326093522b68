import Mathlib.Data.List.Sort

/-!
# The time of the network

`AddTimeData` takes the median of what other nodes say the time is, and bounds it through an
absolute value of 64 bits.
-/

namespace ColossusCoin

/-- `CMedianFilter<int64_t>`. -/
structure CMedianFilter where
  vValues : List Int64
  vSorted : List Int64
  nSize : Nat

namespace CMedianFilter

/-- `CMedianFilter(size, initial_value)`. -/
def new (size : Nat) (initialValue : Int64) : CMedianFilter :=
  ⟨[initialValue], [initialValue], size⟩

/-- `input`. -/
def input (filter : CMedianFilter) (value : Int64) : CMedianFilter :=
  let vValues :=
    (if filter.vValues.length = filter.nSize then filter.vValues.tail else filter.vValues) ++
      [value]
  { filter with vValues := vValues, vSorted := vValues.mergeSort fun a b => decide (a ≤ b) }

/-- `median`, `none` where its assertion fails. -/
def median (filter : CMedianFilter) : Option Int64 :=
  let size := filter.vSorted.length
  if size % 2 = 1 then filter.vSorted[size / 2]?
  else
    match filter.vSorted[size / 2 - 1]?, filter.vSorted[size / 2]? with
    | some below, some above => some ((below + above) / 2)
    | _, _ => none

end CMedianFilter

/-- `abs64`. -/
def abs64 (n : Int64) : Int64 := if 0 ≤ n then n else -n

/-- `nTimeOffset`, and the static variables of `AddTimeData`. -/
structure TimeData (CNetAddr : Type) where
  nTimeOffset : Int64
  setKnown : List CNetAddr
  vTimeOffsets : CMedianFilter
  fDone : Bool

namespace TimeData

variable {CNetAddr : Type} [DecidableEq CNetAddr]

/-- What the variables start with. -/
def initial : TimeData CNetAddr := ⟨0, [], .new 200 0, false⟩

/-- `AddTimeData`, with the median given. -/
def update (data : TimeData CNetAddr) (nMedian : Int64) : TimeData CNetAddr :=
  if abs64 nMedian < 70 * 60 then { data with nTimeOffset := nMedian }
  else
    { data with
      nTimeOffset := 0
      fDone := data.fDone ||
        !data.vTimeOffsets.vSorted.any fun nOffset => nOffset ≠ 0 && abs64 nOffset < 5 * 60 }

/-- `AddTimeData`, but for the warning that it gives when it sets `fDone`. -/
def addTimeData (data : TimeData CNetAddr) (ip : CNetAddr) (nOffsetSample : Int64) :
    TimeData CNetAddr :=
  if ip ∈ data.setKnown then data
  else
    let added :=
      { data with
        setKnown := ip :: data.setKnown
        vTimeOffsets := data.vTimeOffsets.input nOffsetSample }
    let size := added.vTimeOffsets.vValues.length
    if 5 ≤ size ∧ size % 2 = 1 then
      match added.vTimeOffsets.median with
      | none => added
      | some nMedian => added.update nMedian
    else added

/-- The variables after some calls, of which the last one stands first. -/
def afterCalls (calls : List (CNetAddr × Int64)) : TimeData CNetAddr :=
  calls.foldr (fun call data => data.addTimeData call.1 call.2) initial

/-- The samples of distinct addresses, the last one first. -/
def firstSamples : List (CNetAddr × Int64) → List Int64
  | [] => []
  | (ip, sample) :: earlier =>
    if ip ∈ earlier.map Prod.fst then firstSamples earlier else sample :: firstSamples earlier

/-- The last 200 samples of distinct addresses and the initial 0. -/
def window (calls : List (CNetAddr × Int64)) : List Int64 :=
  ((firstSamples calls ++ [0]).take 200).reverse

/-- The middle one of an odd number of samples. -/
def IsMedian (samples : List Int64) (median : Int64) : Prop :=
  samples.length % 2 = 1 ∧
    (samples.mergeSort fun a b => decide (a ≤ b))[samples.length / 2]? = some median

/-- The offset is below 70 minutes, and what the last call sets it to is 0 or a median. -/
def IsBounded (calls : List (CNetAddr × Int64)) : Prop :=
  (afterCalls calls).nTimeOffset.toInt.natAbs < 70 * 60 ∧
    ∀ call earlier, calls = call :: earlier →
      (afterCalls calls).nTimeOffset ≠ (afterCalls earlier).nTimeOffset →
        (afterCalls calls).nTimeOffset = 0 ∨
          IsMedian (window calls) (afterCalls calls).nTimeOffset

/-- Where the last call makes the median count, at most half of the samples are the least number
of 64 bits. -/
def FewLeast (calls : List (CNetAddr × Int64)) : Prop :=
  ∀ call earlier, calls = call :: earlier → call.1 ∉ earlier.map Prod.fst →
    5 ≤ (window calls).length → (window calls).length % 2 = 1 →
      2 * (window calls).count Int64.minValue ≤ (window calls).length

/-- The absolute value is one, but for the least number. -/
theorem abs64_lt_iff
    {n : Int64}
    (notLeast : n ≠ Int64.minValue) :
    abs64 n < 70 * 60 ↔ n.toInt.natAbs < 70 * 60 := by
  have above := n.minValue_le_toInt
  have different : n.toInt ≠ Int64.minValue.toInt := fun same => notLeast (Int64.toInt_inj.mp same)
  rw [Int64.toInt_minValue] at above different
  have limit : (70 * 60 : Int64).toInt = 4200 := by decide
  unfold abs64
  rw [Int64.lt_iff_toInt_lt, limit]
  split_ifs with nonneg
  · rw [Int64.le_iff_toInt_le] at nonneg
    change 0 ≤ n.toInt at nonneg
    omega
  · rw [Int64.not_le, Int64.lt_iff_toInt_lt] at nonneg
    change n.toInt < 0 at nonneg
    rw [Int64.toInt_neg, Int.bmod_eq_of_le (by omega) (by omega)]
    omega

/-- In a sorted list the least numbers stand in front. -/
theorem getElem?_eq_minValue_iff
    {sorted : List Int64}
    (ordered : sorted.Pairwise fun a b => a ≤ b)
    (k : Nat) :
    sorted[k]? = some Int64.minValue ↔ k < sorted.count Int64.minValue := by
  induction sorted generalizing k with
  | nil => simp
  | cons first rest ih =>
    obtain ⟨least, restOrdered⟩ := List.pairwise_cons.mp ordered
    by_cases same : first = Int64.minValue
    · cases k with
      | zero => simp [same]
      | succ k => simp [same, ih restOrdered]
    · have absent : Int64.minValue ∉ first :: rest := by
        intro member
        rcases List.mem_cons.mp member with rfl | later
        · exact same rfl
        · exact same (Int64.le_antisymm (least _ later) first.minValue_le)
      rw [List.count_eq_zero_of_not_mem absent]
      refine iff_of_false (fun found => absent (List.mem_of_getElem? found)) (Nat.not_lt_zero k)

/-- The median is the least number if more than half of the samples are. -/
theorem isMedian_minValue_iff
    {samples : List Int64}
    (odd : samples.length % 2 = 1) :
    IsMedian samples Int64.minValue ↔ samples.length < 2 * samples.count Int64.minValue := by
  have ordered : (samples.mergeSort fun a b => decide (a ≤ b)).Pairwise fun a b => a ≤ b := by
    have sorted := @List.pairwise_mergeSort _ (fun a b : Int64 => decide (a ≤ b))
      (fun a b c ab bc => by simpa using Int64.le_trans (by simpa using ab) (by simpa using bc))
      (fun a b => by simpa using Int64.le_total a b) samples
    exact sorted.imp fun below => by simpa using below
  rw [IsMedian, getElem?_eq_minValue_iff ordered, (List.mergeSort_perm samples _).count_eq]
  omega

variable {call : CNetAddr × Int64} {earlier calls : List (CNetAddr × Int64)}

/-- A sample of a new address enters the filter, and an odd number of samples sets the offset. -/
theorem addTimeData_fresh
    {data : TimeData CNetAddr} {ip : CNetAddr}
    (fresh : ip ∉ data.setKnown)
    (sample : Int64) :
    let filter := data.vTimeOffsets.input sample
    (data.addTimeData ip sample).vTimeOffsets = filter ∧
      (data.addTimeData ip sample).setKnown = ip :: data.setKnown ∧
      (data.addTimeData ip sample).nTimeOffset =
        if 5 ≤ filter.vValues.length ∧ filter.vValues.length % 2 = 1 then
          filter.median.elim data.nTimeOffset fun nMedian =>
            if abs64 nMedian < 70 * 60 then nMedian else 0
        else data.nTimeOffset := by
  rw [addTimeData, if_neg fresh]
  dsimp only
  split_ifs
  · cases (data.vTimeOffsets.input sample).median with
    | none => exact ⟨rfl, rfl, rfl⟩
    | some nMedian =>
      dsimp only [update, Option.elim]
      split_ifs <;> exact ⟨rfl, rfl, rfl⟩
  · exact ⟨rfl, rfl, rfl⟩

/-- Without its oldest value a full window is one value shorter. -/
theorem slide_window (samples : List Int64) (n : Nat) :
    (if (samples.take (n + 1)).reverse.length = n + 1 then (samples.take (n + 1)).reverse.tail
      else (samples.take (n + 1)).reverse) = (samples.take n).reverse := by
  rw [List.length_reverse, List.length_take]
  split_ifs with full
  · rw [List.tail_reverse, List.dropLast_eq_take, List.length_take, full, List.take_take,
      Nat.add_sub_cancel, Nat.min_eq_left (Nat.le_succ n)]
  · rw [List.take_of_length_le (by omega), List.take_of_length_le (by omega)]

/-- The filter holds the window, and the set the addresses. -/
theorem afterCalls_kept (calls : List (CNetAddr × Int64)) :
    (afterCalls calls).vTimeOffsets =
        ⟨window calls, (window calls).mergeSort fun a b => decide (a ≤ b), 200⟩ ∧
      ∀ ip, ip ∈ (afterCalls calls).setKnown ↔ ip ∈ calls.map Prod.fst := by
  induction calls with
  | nil => simp [afterCalls, initial, CMedianFilter.new, window, firstSamples]
  | cons call earlier ih =>
    obtain ⟨filter, known⟩ := ih
    have last : afterCalls (call :: earlier) = (afterCalls earlier).addTimeData call.1 call.2 := rfl
    rw [last]
    by_cases fresh : call.1 ∈ earlier.map Prod.fst
    · rw [addTimeData, if_pos ((known _).mpr fresh), window, firstSamples, if_pos fresh]
      refine ⟨filter, fun ip => ?_⟩
      rw [known, List.map_cons, List.mem_cons]
      exact ⟨.inr, fun here => here.elim (fun same => same ▸ fresh) id⟩
    · obtain ⟨entered, listed, -⟩ := addTimeData_fresh (mt (known _).mp fresh) call.2
      refine ⟨?_, fun ip => ?_⟩
      · rw [entered, filter, CMedianFilter.input, window, slide_window, window, firstSamples,
          if_neg fresh, List.cons_append, List.take_succ_cons, List.reverse_cons]
      · rw [listed, List.map_cons, List.mem_cons, List.mem_cons, known]

/-- A call that counts sets the offset to the median or to 0, and any other leaves it. -/
theorem offset_cons (call : CNetAddr × Int64) (earlier : List (CNetAddr × Int64)) :
    let samples := window (call :: earlier)
    if call.1 ∉ earlier.map Prod.fst ∧ 5 ≤ samples.length ∧ samples.length % 2 = 1 then
      ∃ nMedian, IsMedian samples nMedian ∧ (afterCalls (call :: earlier)).nTimeOffset =
        if abs64 nMedian < 70 * 60 then nMedian else 0
    else (afterCalls (call :: earlier)).nTimeOffset = (afterCalls earlier).nTimeOffset := by
  obtain ⟨-, known⟩ := afterCalls_kept earlier
  have filter := (afterCalls_kept (call :: earlier)).1
  have last : afterCalls (call :: earlier) = (afterCalls earlier).addTimeData call.1 call.2 := rfl
  rw [last] at filter ⊢
  dsimp only
  by_cases fresh : call.1 ∈ earlier.map Prod.fst
  · rw [if_neg fun counts => counts.1 fresh, addTimeData, if_pos ((known _).mpr fresh)]
  · obtain ⟨entered, -, offset⟩ := addTimeData_fresh (mt (known _).mp fresh) call.2
    rw [← entered, filter] at offset
    rw [offset]
    split_ifs with counts enough enough
    · have inside : (window (call :: earlier)).length / 2 <
          ((window (call :: earlier)).mergeSort fun a b => decide (a ≤ b)).length := by
        rw [List.length_mergeSort]
        omega
      refine ⟨_, ⟨enough.2, List.getElem?_eq_getElem inside⟩, ?_⟩
      rw [CMedianFilter.median, List.length_mergeSort, if_pos enough.2,
        List.getElem?_eq_getElem inside, Option.elim_some]
    · exact absurd counts.2 enough
    · exact absurd ⟨fresh, enough⟩ counts
    · rfl

/-- Where most samples are the least number, so is the offset. -/
theorem offset_of_most
    (fresh : call.1 ∉ earlier.map Prod.fst)
    (enough : 5 ≤ (window (call :: earlier)).length)
    (odd : (window (call :: earlier)).length % 2 = 1)
    (most : (window (call :: earlier)).length <
      2 * (window (call :: earlier)).count Int64.minValue) :
    (afterCalls (call :: earlier)).nTimeOffset = Int64.minValue := by
  have sets := offset_cons call earlier
  rw [if_pos ⟨fresh, enough, odd⟩] at sets
  obtain ⟨nMedian, isMedian, offset⟩ := sets
  have least := (isMedian_minValue_iff odd).mpr most
  have same : nMedian = Int64.minValue := Option.some.inj (isMedian.2.symm.trans least.2)
  rw [offset, same, if_pos (by decide)]

/-- For all calls: after each of them the offset is bounded, and a median or 0 when it is set,
exactly if for each call that counts at most half of the samples are the least number. -/
theorem addTimeData_bounded_iff (calls : List (CNetAddr × Int64)) :
    (∀ past, past <:+ calls → IsBounded past) ↔ ∀ past, past <:+ calls → FewLeast past := by
  constructor
  · intro bounded past within call earlier same fresh enough odd
    by_contra most
    subst same
    have below := (bounded _ within).1
    rw [offset_of_most fresh enough odd (Nat.not_le.mp most)] at below
    exact absurd below (by decide)
  · intro few
    induction calls with
    | nil =>
      intro past within
      rw [List.suffix_nil.mp within]
      exact ⟨show (0 : Int).natAbs < 70 * 60 by decide, fun call earlier absurd => by cases absurd⟩
    | cons call earlier ih =>
      have before := ih fun past within => few past (within.trans (List.suffix_cons _ _))
      intro past within
      rcases List.suffix_cons_iff.mp within with rfl | within
      · have sets := offset_cons call earlier
        dsimp only at sets
        split_ifs at sets with counts
        · obtain ⟨nMedian, isMedian, offset⟩ := sets
          have half := few _ within call earlier rfl counts.1 counts.2.1 counts.2.2
          have notLeast : nMedian ≠ Int64.minValue := by
            rintro rfl
            have most := (isMedian_minValue_iff counts.2.2).mp isMedian
            omega
          rw [IsBounded, offset]
          split_ifs with small
          · refine ⟨(abs64_lt_iff notLeast).mp small, ?_⟩
            exact fun _ _ _ _ => .inr isMedian
          · exact ⟨by decide, fun _ _ _ _ => .inl rfl⟩
        · rw [IsBounded, sets]
          refine ⟨(before earlier (List.suffix_refl _)).1, ?_⟩
          intro _ _ same changes
          cases same
          exact absurd rfl changes
      · exact before past within

/-- Four nodes say that their time is behind by the least number of seconds. -/
theorem four_least_samples :
    ¬∀ past, past <:+ [(4, Int64.minValue), (3, Int64.minValue), (2, Int64.minValue),
      (1, Int64.minValue)] → IsBounded past := by
  intro bounded
  have below := (bounded _ (List.suffix_refl _)).1
  rw [offset_of_most (by decide) (by decide) (by decide) (by decide)] at below
  exact absurd below (by decide)

end TimeData
end ColossusCoin
