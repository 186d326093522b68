import ColossusCoin.Masternode.RejectedBroadcasts
import Mathlib.Algebra.Order.Ring.Nat

/-!
# A random masternode

`FindRandomNotInVec` draws a number below the count of enabled masternodes less the length of the
exclusion list, and counts it down over the enabled masternodes that are not in the list.  What it
draws may be too small to reach the last of them or too large to stop at one.
-/

namespace ColossusCoin

namespace RandomChoice

/-- How a computation with random numbers comes to no result: it still draws, or a signed number
overflows. -/
inductive RandomFault where
  | drawing
  | overflow
  deriving DecidableEq, Repr

/-- `GetRand`, of the 64-bit values that are drawn: the first one in the range counts. -/
def getRand (nMax : Nat) (draws : List (BitVec 64)) : Except RandomFault Nat :=
  if nMax = 0 then .ok 0
  else
    match draws.find? fun nRand => nRand.toNat < (2 ^ 64 - 1) / nMax * nMax with
    | none => .error .drawing
    | some nRand => .ok (nRand.toNat % nMax)

/-- `GetRandInt`, between an `int` and an `int`. -/
def getRandInt (nMax : Int) (draws : List (BitVec 64)) : Except RandomFault Int := do
  let value ← getRand (nMax % 2 ^ 64).toNat draws
  pure ((value : Int).bmod (2 ^ 32))

section Choice

variable (protocolVersion : Int) (vecToExclude : List CTxIn)

/-- An entry counts: it is enabled and its version suffices. -/
def isCounted (mn : CMasternode) : Bool :=
  protocolVersion ≤ mn.protocolVersion && mn.isEnabled

/-- `CountEnabled` of entries that were checked; the count is an `int`. -/
def countChecked (checked : List CMasternode) : Except RandomFault Int :=
  let i := checked.countP (isCounted protocolVersion)
  if 2 ^ 31 ≤ i then .error .overflow else .ok i

/-- The loop of `FindRandomNotInVec`, over entries with their places. -/
def chooseLoop : List (CMasternode × Nat) → Int → Except RandomFault (Option Nat)
  | [], _ => .ok none
  | (mn, place) :: rest, rand =>
    if mn.protocolVersion < protocolVersion || !mn.isEnabled then chooseLoop rest rand
    else if vecToExclude.any fun usedVin => mn.vin.prevout == usedVin.prevout then
      chooseLoop rest rand
    else if rand = -2 ^ 31 then .error .overflow
    else if rand - 1 < 1 then .ok (some place)
    else chooseLoop rest (rand - 1)

/-- `FindRandomNotInVec`, of entries that were checked: the place of an entry, or `NULL`. -/
def chooseNotInVec (checked : List CMasternode) (draws : List (BitVec 64)) :
    Except RandomFault (Option Nat) := do
  let nCountEnabled ← countChecked protocolVersion checked
  -- The difference of an `int` and a `size_t` is a `size_t`.
  let nDifference := (nCountEnabled - vecToExclude.length) % 2 ^ 64
  if nDifference < 1 then pure none
  else
    let rand ← getRandInt (nDifference.bmod (2 ^ 32)) draws
    chooseLoop protocolVersion vecToExclude checked.zipIdx rand

/-- `FindRandomNotInVec`: `CountEnabled` checks every entry. -/
def findRandomNotInVec (env : MasternodeEnv) (vMasternodes : List CMasternode)
    (draws : List (BitVec 64)) : Except RandomFault (Option Nat) :=
  chooseNotInVec (if protocolVersion = -1 then env.nMinProtocol else protocolVersion) vecToExclude
    (vMasternodes.map (CMasternode.check env false)) draws

/-- An entry counts and is not in the exclusion list. -/
def isCandidate (mn : CMasternode) : Bool :=
  isCounted protocolVersion mn &&
    !vecToExclude.any fun usedVin => mn.vin.prevout == usedVin.prevout

/-- The places of the candidates among some entries. -/
def placesOf (entries : List (CMasternode × Nat)) : List Nat :=
  (entries.filter fun entry => isCandidate protocolVersion vecToExclude entry.1).map Prod.snd

/-- The places of all candidates, in their order. -/
def candidates (checked : List CMasternode) : List Nat :=
  placesOf protocolVersion vecToExclude checked.zipIdx

variable {protocolVersion vecToExclude}

theorem nodup_candidates (checked : List CMasternode) :
    (candidates protocolVersion vecToExclude checked).Nodup := by
  have places : (checked.zipIdx.map Prod.snd).Nodup := by
    rw [List.zipIdx_map_snd]
    exact List.nodup_range'
  exact places.sublist (List.Sublist.map _ List.filter_sublist)

theorem placesOf_cons (mn : CMasternode) (place : Nat) (rest : List (CMasternode × Nat)) :
    placesOf protocolVersion vecToExclude ((mn, place) :: rest) =
      if isCandidate protocolVersion vecToExclude mn then
        place :: placesOf protocolVersion vecToExclude rest
      else placesOf protocolVersion vecToExclude rest := by
  rw [placesOf, List.filter_cons]
  split_ifs <;> rfl

/-- The loop passes over what is no candidate, and stops at a candidate or counts it. -/
theorem chooseLoop_cons (mn : CMasternode) (place : Nat) (rest : List (CMasternode × Nat))
    (rand : Int) :
    chooseLoop protocolVersion vecToExclude ((mn, place) :: rest) rand =
      if isCandidate protocolVersion vecToExclude mn then
        if rand = -2 ^ 31 then .error .overflow
        else if rand - 1 < 1 then .ok (some place)
        else chooseLoop protocolVersion vecToExclude rest (rand - 1)
      else chooseLoop protocolVersion vecToExclude rest rand := by
  have counted : (decide (mn.protocolVersion < protocolVersion) || !mn.isEnabled) =
      !isCounted protocolVersion mn := by
    rw [isCounted, Bool.not_and, ← decide_not, decide_eq_decide.mpr Int.not_le]
  rw [chooseLoop, counted, isCandidate]
  cases isCounted protocolVersion mn <;>
    cases vecToExclude.any fun usedVin => mn.vin.prevout == usedVin.prevout <;> rfl

/-- The loop stops at the candidate that the number says, where one and less say the first. -/
theorem chooseLoop_eq (entries : List (CMasternode × Nat)) (rand : Int) :
    chooseLoop protocolVersion vecToExclude entries rand =
      if placesOf protocolVersion vecToExclude entries = [] then .ok none
      else if rand = -2 ^ 31 then .error .overflow
      else .ok (placesOf protocolVersion vecToExclude entries)[(rand - 1).toNat]? := by
  induction entries generalizing rand with
  | nil => rfl
  | cons entry rest ih =>
    obtain ⟨mn, place⟩ := entry
    rw [chooseLoop_cons, placesOf_cons]
    by_cases candidate : isCandidate protocolVersion vecToExclude mn = true
    · rw [if_pos candidate, if_pos candidate, if_neg (List.cons_ne_nil _ _)]
      by_cases least : rand = -2 ^ 31
      · rw [if_pos least, if_pos least]
      · rw [if_neg least, if_neg least]
        by_cases first : rand - 1 < 1
        · have none : (rand - 1).toNat = 0 := by omega
          rw [if_pos first, none, List.getElem?_cons_zero]
        · have more : (rand - 1).toNat = (rand - 1 - 1).toNat + 1 := by omega
          have notLeast : rand - 1 ≠ -2 ^ 31 := by omega
          rw [if_neg first, ih, more, List.getElem?_cons_succ, if_neg notLeast]
          split_ifs with empty
          · rw [empty, List.getElem?_nil]
          · rfl
    · rw [if_neg candidate, if_neg candidate, ih]

end Choice

theorem getRand_lt
    (positive : 0 < nMax)
    (drawn : getRand nMax draws = .ok value) :
    value < nMax := by
  rw [getRand, if_neg (Nat.ne_of_gt positive)] at drawn
  split at drawn
  · cases drawn
  · obtain rfl := Except.ok.inj drawn
    exact Nat.mod_lt _ positive

/-- Every number below the bound is drawn from some values. -/
theorem getRand_of_lt
    (below : value < nMax)
    (bounded : nMax < 2 ^ 64) :
    getRand nMax [BitVec.ofNat 64 value] = .ok value := by
  have positive : 0 < nMax := Nat.lt_of_le_of_lt (Nat.zero_le value) below
  have times : 1 ≤ (2 ^ 64 - 1) / nMax := (Nat.le_div_iff_mul_le positive).mpr (by omega)
  have range : nMax ≤ (2 ^ 64 - 1) / nMax * nMax := Nat.le_mul_of_pos_left nMax times
  have own : (BitVec.ofNat 64 value).toNat = value := by
    rw [BitVec.toNat_ofNat, Nat.mod_eq_of_lt (by omega)]
  have accepted : [BitVec.ofNat 64 value].find?
      (fun nRand => nRand.toNat < (2 ^ 64 - 1) / nMax * nMax) = some (BitVec.ofNat 64 value) := by
    refine List.find?_cons_of_pos ?_
    rw [own]
    exact decide_eq_true (Nat.lt_of_lt_of_le below range)
  rw [getRand, if_neg (Nat.ne_of_gt positive), accepted]
  dsimp only
  rw [own, Nat.mod_eq_of_lt below]

variable {places : List Nat} {bound : Int}

theorem getRandInt_of_pos
    (positive : 0 < bound)
    (fits : bound < 2 ^ 31) :
    (∀ draws rand, getRandInt bound draws = .ok rand → 0 ≤ rand ∧ rand < bound) ∧
      ∀ rand : Int, 0 ≤ rand → rand < bound → ∃ draws, getRandInt bound draws = .ok rand := by
  obtain ⟨nMax, rfl⟩ := Int.eq_ofNat_of_zero_le positive.le
  have same : ((nMax : Int) % 2 ^ 64).toNat = nMax := by omega
  have small : ∀ value, value < nMax → (value : Int).bmod (2 ^ 32) = value := by
    intro value below
    exact Int.bmod_eq_of_le (by omega) (by omega)
  constructor
  · intro draws rand drawn
    rw [getRandInt, same] at drawn
    cases taken : getRand nMax draws with
    | error fault =>
      rw [taken] at drawn
      cases drawn
    | ok value =>
      rw [taken] at drawn
      have below := getRand_lt (by omega) taken
      obtain rfl := Except.ok.inj drawn
      rw [small value below]
      omega
  · intro rand notBelow notAbove
    obtain ⟨value, rfl⟩ := Int.eq_ofNat_of_zero_le notBelow
    refine ⟨[BitVec.ofNat 64 value], ?_⟩
    rw [getRandInt, same, getRand_of_lt (by omega) (by omega)]
    exact congrArg Except.ok (small value (by omega))

theorem getRandInt_zero (draws : List (BitVec 64)) : getRandInt 0 draws = .ok 0 := rfl

/-- From a negative `int` the least number is drawn, among others. -/
theorem getRandInt_of_neg
    (negative : bound < 0)
    (fits : -2 ^ 31 ≤ bound) :
    ∃ draws, getRandInt bound draws = .ok (-2 ^ 31) := by
  have large : (bound % 2 ^ 64).toNat < 2 ^ 64 ∧ 2 ^ 31 < (bound % 2 ^ 64).toNat := by omega
  refine ⟨[BitVec.ofNat 64 (2 ^ 31)], ?_⟩
  rw [getRandInt, getRand_of_lt large.2 large.1]
  rfl

theorem getRandInt_fault
    (failed : getRandInt bound draws = .error fault) :
    fault = .drawing := by
  rw [getRandInt, getRand] at failed
  split_ifs at failed
  · cases failed
  · split at failed
    · exact (Except.error.inj failed).symm
    · cases failed

/-- A random choice gives nothing exactly where there are no candidates, otherwise one of them, and
each of them for some draws. -/
def Covers (choose : List (BitVec 64) → Except RandomFault (Option Nat)) (places : List Nat) :
    Prop :=
  (∀ draws, choose draws = .error .drawing ∨ ∃ choice, choose draws = .ok choice ∧
    (choice = none ↔ places = []) ∧ ∀ place, choice = some place → place ∈ places) ∧
  ∀ place ∈ places, ∃ draws, choose draws = .ok (some place)

/-- What becomes of a number that was drawn. -/
def settle (places : List Nat) (rand : Int) : Except RandomFault (Option Nat) :=
  if rand = -2 ^ 31 then .error .overflow else .ok places[(rand - 1).toNat]?

theorem covers_settle
    (nodup : places.Nodup)
    (nonempty : places ≠ []) :
    Covers (fun draws => getRandInt bound draws >>= settle places) places ↔
      (∀ draws rand, getRandInt bound draws = .ok rand →
        rand ≠ -2 ^ 31 ∧ (rand - 1).toNat < places.length) ∧
      ∀ index < places.length, ∃ draws rand, getRandInt bound draws = .ok rand ∧
        rand ≠ -2 ^ 31 ∧ (rand - 1).toNat = index := by
  have settled : ∀ draws rand, getRandInt bound draws = .ok rand →
      (fun draws => getRandInt bound draws >>= settle places) draws = settle places rand := by
    intro draws rand drawn
    dsimp only
    rw [drawn]
    rfl
  have stays : ∀ rand, rand ≠ -2 ^ 31 →
      settle places rand = .ok places[(rand - 1).toNat]? := fun rand notLeast => if_neg notLeast
  constructor
  · rintro ⟨always, each⟩
    have inside : ∀ draws rand, getRandInt bound draws = .ok rand →
        rand ≠ -2 ^ 31 ∧ (rand - 1).toNat < places.length := by
      intro draws rand drawn
      have outcome := always draws
      rw [settled draws rand drawn, settle] at outcome
      split_ifs at outcome with least
      · rcases outcome with still | ⟨_, result, -⟩
        · cases still
        · cases result
      · refine And.intro least ?_
        rcases outcome with still | ⟨choice, result, never, -⟩
        · cases still
        · obtain rfl := Except.ok.inj result
          by_contra outside
          exact nonempty (never.mp (List.getElem?_eq_none (not_lt.mp outside)))
    refine And.intro inside fun index below => ?_
    obtain ⟨draws, result⟩ := each places[index] (List.getElem_mem below)
    cases drawn : getRandInt bound draws with
    | error fault =>
      dsimp only at result
      rw [drawn] at result
      cases result
    | ok rand =>
      obtain ⟨notLeast, there⟩ := inside draws rand drawn
      rw [settled draws rand drawn, stays rand notLeast, List.getElem?_eq_getElem there] at result
      have same := Option.some.inj (Except.ok.inj result)
      exact ⟨draws, rand, drawn, notLeast, (List.Nodup.getElem_inj_iff nodup).mp same⟩
  · rintro ⟨inside, said⟩
    constructor
    · intro draws
      cases drawn : getRandInt bound draws with
      | error fault =>
        refine .inl ?_
        dsimp only
        rw [drawn, getRandInt_fault drawn]
        rfl
      | ok rand =>
        obtain ⟨notLeast, there⟩ := inside draws rand drawn
        refine .inr ⟨some places[(rand - 1).toNat], ?_, iff_of_false nofun nonempty, ?_⟩
        · rw [settled draws rand drawn, stays rand notLeast, List.getElem?_eq_getElem there]
        · intro place same
          obtain rfl := Option.some.inj same
          exact List.getElem_mem there
    · intro place member
      obtain ⟨index, below, rfl⟩ := List.mem_iff_getElem.mp member
      obtain ⟨draws, rand, drawn, notLeast, rfl⟩ := said index below
      exact ⟨draws, by rw [settled draws rand drawn, stays rand notLeast,
        List.getElem?_eq_getElem below]⟩

/-- From a bound that was cut down to an `int`, all candidates are covered exactly when it is one
more than their number; for a single one up to two will do. -/
theorem covers_settle_iff
    (nodup : places.Nodup)
    (nonempty : places ≠ [])
    (notBelow : -2 ^ 31 ≤ bound)
    (notAbove : bound < 2 ^ 31) :
    Covers (fun draws => getRandInt bound draws >>= settle places) places ↔
      places.length = 1 ∧ 0 ≤ bound ∧ bound ≤ 2 ∨
        2 ≤ places.length ∧ bound = places.length + 1 := by
  have positive : 0 < places.length := List.length_pos_iff.mpr nonempty
  rw [covers_settle nodup nonempty]
  rcases lt_trichotomy bound 0 with negative | rfl | above
  · obtain ⟨draws, least⟩ := getRandInt_of_neg negative notBelow
    refine iff_of_false ?_ (by omega)
    rintro ⟨inside, -⟩
    exact (inside draws _ least).1 rfl
  · constructor
    · rintro ⟨-, said⟩
      refine .inl ⟨?_, by omega, by omega⟩
      obtain ⟨draws, rand, drawn, -, last⟩ := said (places.length - 1) (by omega)
      rw [getRandInt_zero] at drawn
      obtain rfl := Except.ok.inj drawn
      omega
    · intro one
      constructor
      · intro draws rand drawn
        rw [getRandInt_zero] at drawn
        obtain rfl := Except.ok.inj drawn
        omega
      · intro index below
        exact ⟨[], 0, getRandInt_zero [], by omega, by omega⟩
  · obtain ⟨range, drawable⟩ := getRandInt_of_pos above notAbove
    constructor
    · rintro ⟨inside, said⟩
      obtain ⟨draws, highest⟩ := drawable (bound - 1) (by omega) (by omega)
      have top := (inside draws _ highest).2
      obtain ⟨_, rand, drawn, -, last⟩ := said (places.length - 1) (by omega)
      have bounds := range _ rand drawn
      omega
    · intro fits
      constructor
      · intro draws rand drawn
        have bounds := range draws rand drawn
        omega
      · intro index below
        by_cases first : index = 0
        · obtain ⟨draws, drawn⟩ := drawable 0 (by omega) (by omega)
          exact ⟨draws, 0, drawn, by omega, by omega⟩
        · obtain ⟨draws, drawn⟩ := drawable (index + 1) (by omega) (by omega)
          exact ⟨draws, index + 1, drawn, by omega, by omega⟩

section Lists

/-- The count of enabled masternodes less the length of the exclusion list. -/
def difference (protocolVersion : Int) (vecToExclude : List CTxIn) (checked : List CMasternode) :
    Int :=
  checked.countP (isCounted protocolVersion) - vecToExclude.length

/-- The count is an `int`, and if there are candidates, the difference is not zero as a `size_t`,
and as an `int` it is one more than their number, or at most two for a single one. -/
def IsCovered (protocolVersion : Int) (vecToExclude : List CTxIn) (checked : List CMasternode) :
    Prop :=
  let places := (candidates protocolVersion vecToExclude checked).length
  let bound := (difference protocolVersion vecToExclude checked).bmod (2 ^ 32)
  checked.countP (isCounted protocolVersion) < 2 ^ 31 ∧
    (places = 0 ∨ difference protocolVersion vecToExclude checked % 2 ^ 64 ≠ 0 ∧
      (places = 1 ∧ 0 ≤ bound ∧ bound ≤ 2 ∨ 2 ≤ places ∧ bound = places + 1))

theorem chooseNotInVec_of_count
    (counts : checked.countP (isCounted protocolVersion) < 2 ^ 31)
    (draws : List (BitVec 64)) :
    chooseNotInVec protocolVersion vecToExclude checked draws =
      if difference protocolVersion vecToExclude checked % 2 ^ 64 = 0 then .ok none
      else getRandInt ((difference protocolVersion vecToExclude checked).bmod (2 ^ 32)) draws >>=
        chooseLoop protocolVersion vecToExclude checked.zipIdx := by
  have counted : countChecked protocolVersion checked =
      .ok (checked.countP (isCounted protocolVersion)) := if_neg (not_le.mpr counts)
  have cut : (difference protocolVersion vecToExclude checked % 2 ^ 64).bmod (2 ^ 32) =
      (difference protocolVersion vecToExclude checked).bmod (2 ^ 32) := by
    rw [Int.bmod_def, Int.bmod_def]
    omega
  rw [chooseNotInVec, counted, ← cut]
  change (if difference protocolVersion vecToExclude checked % 2 ^ 64 < 1 then _ else _) = _
  by_cases zero : difference protocolVersion vecToExclude checked % 2 ^ 64 = 0
  · rw [if_pos zero, if_pos (by omega)]
    rfl
  · rw [if_neg zero, if_neg (by omega)]
    rfl

theorem chooseNotInVec_covers_iff :
    Covers (chooseNotInVec protocolVersion vecToExclude checked)
        (candidates protocolVersion vecToExclude checked) ↔
      IsCovered protocolVersion vecToExclude checked := by
  rw [IsCovered]
  by_cases counts : checked.countP (isCounted protocolVersion) < 2 ^ 31
  · have chooses := funext (@chooseNotInVec_of_count protocolVersion vecToExclude checked counts)
    have loop := funext (@chooseLoop_eq protocolVersion vecToExclude checked.zipIdx)
    have nodup := @nodup_candidates protocolVersion vecToExclude checked
    rw [chooses, and_iff_right counts]
    by_cases none : candidates protocolVersion vecToExclude checked = []
    · have noPlaces : placesOf protocolVersion vecToExclude checked.zipIdx = [] := none
      simp only [noPlaces, if_true] at loop
      rw [none]
      refine iff_of_true ⟨fun draws => ?_, fun _ member => absurd member List.not_mem_nil⟩
        (.inl rfl)
      dsimp only
      split_ifs
      · exact .inr ⟨Option.none, rfl, iff_of_true rfl rfl, nofun⟩
      · rw [loop]
        cases drawn : getRandInt
            ((difference protocolVersion vecToExclude checked).bmod (2 ^ 32)) draws with
        | error fault =>
          rw [getRandInt_fault drawn]
          exact .inl rfl
        | ok rand => exact .inr ⟨Option.none, rfl, iff_of_true rfl rfl, nofun⟩
    · have somePlaces : ¬placesOf protocolVersion vecToExclude checked.zipIdx = [] := none
      simp only [somePlaces, if_false] at loop
      have length : (candidates protocolVersion vecToExclude checked).length ≠ 0 :=
        fun zero => none (List.eq_nil_of_length_eq_zero zero)
      by_cases zero : difference protocolVersion vecToExclude checked % 2 ^ 64 = 0
      · simp only [zero, if_true]
        refine iff_of_false ?_ (by simp [length])
        rintro ⟨always, -⟩
        rcases always [] with still | ⟨choice, result, never, -⟩
        · cases still
        · obtain rfl := Except.ok.inj result
          exact none (never.mp rfl)
      · simp only [zero, if_false, length, false_or, not_false_iff, true_and, ne_eq]
        rw [loop]
        exact covers_settle_iff nodup none (Int.le_bmod (by decide)) (Int.bmod_lt (by decide))
  · refine iff_of_false ?_ fun both => counts both.1
    have overflows : ∀ draws, chooseNotInVec protocolVersion vecToExclude checked draws =
        .error .overflow := by
      intro draws
      have counted : countChecked protocolVersion checked = .error .overflow :=
        if_pos (not_lt.mp counts)
      rw [chooseNotInVec, counted]
      rfl
    rintro ⟨always, -⟩
    rcases always [] with still | ⟨_, result, -⟩
    · rw [overflows] at still
      cases still
    · rw [overflows] at result
      cases result

end Lists

/-- `FindRandomNotInVec` gives `NULL` exactly where no enabled masternode of a sufficient version is
outside the exclusion list, otherwise one of those, and each of them for some draws, if and only if
the entries are covered. -/
theorem findRandomNotInVec_covers_iff
    (env : MasternodeEnv) (vMasternodes : List CMasternode) (vecToExclude : List CTxIn)
    (protocolVersion : Int) :
    let version := if protocolVersion = -1 then env.nMinProtocol else protocolVersion
    let checked := vMasternodes.map (CMasternode.check env false)
    Covers (findRandomNotInVec protocolVersion vecToExclude env vMasternodes)
        (candidates version vecToExclude checked) ↔
      IsCovered version vecToExclude checked :=
  chooseNotInVec_covers_iff

/-- An enabled masternode for an output of the collateral. -/
def openEntry (n : Nat) : CMasternode :=
  { CMasternode.ofBroadcast (openBroadcast 1000) with
    vin := { CTxIn.empty with prevout := ⟨7, n⟩ } }

/-- Of two masternodes, none excluded, the second is never chosen. -/
theorem openEntries_not_covered :
    candidates 70000 [] ([openEntry 0, openEntry 1].map (CMasternode.check (openEnv 1000) false)) =
        [0, 1] ∧
      ¬Covers (findRandomNotInVec (-1) [] (openEnv 1000) [openEntry 0, openEntry 1]) [0, 1] := by
  have places : candidates 70000 []
      ([openEntry 0, openEntry 1].map (CMasternode.check (openEnv 1000) false)) = [0, 1] := rfl
  refine And.intro places fun covers => ?_
  rw [← places] at covers
  have covered : IsCovered 70000 []
      ([openEntry 0, openEntry 1].map (CMasternode.check (openEnv 1000) false)) :=
    chooseNotInVec_covers_iff.mp covers
  have two : difference 70000 []
      ([openEntry 0, openEntry 1].map (CMasternode.check (openEnv 1000) false)) = 2 := rfl
  rw [IsCovered, places, two] at covered
  revert covered
  decide

end RandomChoice

end ColossusCoin
