import ColossusCoin.Wallet.ExactChange

/-!
# Change that is calculated

The loops of `minimizeChange` and `calculateChange` keep an account of the coins that they use, and
use no more than are held.  Whatever they come to, it is taken only with change that is not
negative, and otherwise the largest coins cover the target with as few coins as there can be.
-/

namespace ColossusCoin

open CoinDenomination CoinSystems Loops

theorem getChange_of_neg
    (negative : nValueTarget < 0) :
    Yields (getChange nValueTarget) fun mapChange => getNumberOfCoinsUsed mapChange = 0 := by
  have rounds : Yields
      (fun fuel => zerocoinDenomList.reverse.foldlM (changeRound fuel) ⟨.zero, nValueTarget⟩)
      fun result => result = ⟨.zero, nValueTarget⟩ := by
    refine yields_foldlM (fun state : CoinsUsed => state = ⟨.zero, nValueTarget⟩) ?_ rfl
    rintro coin listed state rfl
    have positive := toAmount_pos listed
    have stops : canReturn coin ⟨.zero, nValueTarget⟩ = false :=
      decide_eq_false (show ¬coin.toAmount ≤ nValueTarget by omega)
    refine (yields_doWhile_guarded (fun state => state = ⟨.zero, nValueTarget⟩) (fun _ => 0) ?_
      rfl).mono fun _ same => same.1
    rintro state rfl runs
    rw [stops] at runs
    cases runs
  refine rounds.bind fun result same => yields_some ?_
  rw [same]
  rfl

theorem ends_getChange (nValueTarget : Int) :
    Yields (getChange nValueTarget) fun mapChange =>
      nValueTarget ≤ 0 → getNumberOfCoinsUsed mapChange = 0 := by
  by_cases negative : nValueTarget < 0
  · exact (getChange_of_neg negative).mono fun _ none _ => none
  · refine (getChange_minimal (not_lt.mp negative)).mono fun mapChange minimal notAbove => ?_
    obtain ⟨nonneg, below, above, fewest⟩ := minimal
    have zero : DenomMap.zero.worth = 0 := by decide
    have notNegative : 0 ≤ mapChange.worth := by
      rw [DenomMap.worth, ← worth_reverse]
      exact worth_nonneg divisible_denominations.positive fun denom listed =>
        nonneg denom (List.mem_reverse.mp listed)
    have few := fewest .zero (fun _ _ => le_refl 0) (by omega)
    have none : getNumberOfCoinsUsed DenomMap.zero = 0 := by decide
    have counted : 0 ≤ getNumberOfCoinsUsed mapChange := by
      rw [getNumberOfCoinsUsed_eq]
      exact number_nonneg nonneg
    omega

/-- What the loops keep while they use coins. -/
structure Booked (held : DenomMap) (nValueTarget : Int) (state : AmountCovered) : Prop where
  within : state.mapOfDenomsUsed.Within held
  remains : state.nRemainingValue = nValueTarget - state.mapOfDenomsUsed.worth
  amount : state.amountUsed = state.mapOfDenomsUsed.worth
  count : state.nCoinCount = getNumberOfCoinsUsed state.mapOfDenomsUsed

theorem Booked.start
    (nonneg : ∀ denom ∈ zerocoinDenomList, 0 ≤ held denom) :
    Booked held nValueTarget (.start nValueTarget) where
  within := fun denom listed => ⟨le_refl 0, nonneg denom listed⟩
  remains := (Int.sub_zero nValueTarget).symm
  amount := rfl
  count := rfl

theorem nodup_zerocoinDenomList : zerocoinDenomList.Nodup := by decide

theorem getNumberOfCoinsUsed_increment
    (counts : DenomMap)
    (listed : denom ∈ zerocoinDenomList) :
    getNumberOfCoinsUsed (counts.increment denom) = getNumberOfCoinsUsed counts + 1 := by
  rw [getNumberOfCoinsUsed_eq, getNumberOfCoinsUsed_eq, DenomMap.increment,
    (@sums_update _ toAmount _ _ _ nodup_zerocoinDenomList listed _ _).2]
  omega

theorem DenomMap.worth_decrement
    (counts : DenomMap)
    (listed : denom ∈ zerocoinDenomList) :
    (counts.decrement denom).worth = counts.worth - denom.toAmount := by
  rw [DenomMap.worth, DenomMap.worth, DenomMap.decrement,
    (sums_update nodup_zerocoinDenomList listed _ _).1]
  have one : counts denom - 1 - counts denom = -1 := by omega
  rw [one, Int.neg_one_mul, Int.sub_eq_add_neg]

/-- One more coin of a denomination of which there are more. -/
theorem Booked.use
    (booked : Booked held nValueTarget state)
    (listed : denom ∈ zerocoinDenomList)
    (more : state.mapOfDenomsUsed denom < held denom) :
    Booked held nValueTarget (state.use denom) where
  within := by
    intro other inList
    by_cases same : other = denom
    · subst same
      have nonneg := (booked.within other inList).1
      rw [AmountCovered.use_mapOfDenomsUsed, DenomMap.increment_self]
      omega
    · rw [AmountCovered.use_mapOfDenomsUsed, DenomMap.increment_of_ne _ same]
      exact booked.within other inList
  remains := by
    simp only [AmountCovered.use, DenomMap.worth_increment, booked.remains]
    omega
  amount := by
    simp only [AmountCovered.use, DenomMap.worth_increment, booked.amount]
  count := by
    simp only [AmountCovered.use, getNumberOfCoinsUsed_increment _ listed, booked.count]

theorem yields_belowRound
    (listed : denom ∈ zerocoinDenomList)
    (booked : Booked held nValueTarget state) :
    Yields (fun fuel => belowRound nextToMaxDenom held fuel state denom)
      (Booked held nValueTarget) := by
  unfold belowRound
  by_cases low : denom.toInt ≤ nextToMaxDenom.toInt
  · simp only [if_pos low]
    refine (yields_doWhile_guarded (Booked held nValueTarget)
      (fun state => (held denom - state.mapOfDenomsUsed denom).toNat) ?_ booked).mono
      fun _ kept => kept.1
    intro state booked fits
    have more : state.mapOfDenomsUsed denom < held denom := by
      simp only [canStayBelow, Bool.and_eq_true, decide_eq_true_eq] at fits
      exact fits.2
    refine ⟨booked.use listed more, ?_⟩
    rw [AmountCovered.use_mapOfDenomsUsed, DenomMap.increment_self]
    omega
  · simp only [if_neg low]
    exact yields_some booked

/-- The second loop of `minimizeChange`. -/
theorem Booked.fillUp
    (booked : Booked held nValueTarget state)
    (listed : ∀ denom ∈ denoms, denom ∈ zerocoinDenomList) :
    Booked held nValueTarget (fillUp held denoms state) := by
  induction denoms generalizing state with
  | nil => exact booked
  | cons denom rest ih =>
    rw [List.forall_mem_cons] at listed
    rw [ColossusCoin.fillUp]
    by_cases fills : state.nRemainingValue < denom.toAmount ∧
        state.mapOfDenomsUsed denom < held denom
    · have filled := booked.use listed.1 fills.2
      rw [if_pos fills]
      split_ifs
      · exact filled
      · exact ih filled listed.2
    · rw [if_neg fills]
      split_ifs
      · exact booked
      · exact ih booked listed.2

/-- What the third loop of `minimizeChange` keeps. -/
structure BookedApart (held : DenomMap) (state : Overlap) : Prop where
  within : state.mapOfDenomsUsed.Within held
  amount : state.amountUsed = state.mapOfDenomsUsed.worth

theorem yields_overlapRound
    {state : Overlap}
    (listed : denom ∈ zerocoinDenomList)
    (booked : BookedApart held state) :
    Yields (fun fuel => overlapRound fuel state denom) (BookedApart held) := by
  refine (yields_doWhile_guarded (BookedApart held)
    (fun state => (state.mapOfDenomsUsed denom).toNat) ?_ booked).mono fun _ kept => kept.1
  intro state booked both
  have some : state.mapOfDenomsUsed denom ≠ 0 := by
    simp only [overlaps, Bool.and_eq_true, decide_eq_true_eq] at both
    exact both.2
  have bounds := booked.within denom listed
  refine ⟨⟨fun other inList => ?_, ?_⟩, ?_⟩
  · by_cases same : other = denom
    · subst same
      rw [Overlap.drop_mapOfDenomsUsed, DenomMap.decrement_self]
      omega
    · rw [Overlap.drop_mapOfDenomsUsed, DenomMap.decrement_of_ne _ same]
      exact booked.within other inList
  · simp only [Overlap.drop, DenomMap.worth_decrement _ listed, booked.amount]
  · rw [Overlap.drop_mapOfDenomsUsed, DenomMap.decrement_self]
    omega

/-- The number of coins in change is that of the coins used. -/
def ChangeFound.Settled (held : DenomMap) (nValueTarget : Int) (found : ChangeFound) : Prop :=
  found.mapOfDenomsUsed.Within held ∧
    ∃ mapChange, Ends (getChange (found.mapOfDenomsUsed.worth - nValueTarget)) mapChange ∧
      found.nChangeCount = getNumberOfCoinsUsed mapChange

/-- `minimizeChange` succeeds with coins that reach the target within the limit, or gives back what
it was given. -/
theorem yields_minimizeChange
    (nonneg : ∀ denom ∈ zerocoinDenomList, 0 ≤ held denom) :
    Yields (minimizeChange nMaxNumberOfSpends nChangeCount nextToMaxDenom nValueTarget held saved)
      fun found =>
        found.success = false ∧ found.nChangeCount = nChangeCount ∧
            found.mapOfDenomsUsed = saved ∨
          found.success = true ∧ found.Settled held nValueTarget ∧
            nValueTarget ≤ found.mapOfDenomsUsed.worth ∧
            getNumberOfCoinsUsed found.mapOfDenomsUsed ≤ nMaxNumberOfSpends := by
  have below : Yields (fun fuel => zerocoinDenomList.reverse.foldlM
      (belowRound nextToMaxDenom held fuel) (.start nValueTarget)) (Booked held nValueTarget) :=
    yields_foldlM (Booked held nValueTarget)
      (fun _ listed _ booked => yields_belowRound (List.mem_reverse.mp listed) booked)
      (.start nonneg)
  refine below.bind fun state booked => ?_
  have filled := booked.fillUp fun _ listed => listed
  refine (ends_getChange _).bind fun mapAltChange _ => ?_
  have apart : Yields (fun fuel => zerocoinDenomList.foldlM (overlapRound fuel)
      ⟨(fillUp held zerocoinDenomList state).mapOfDenomsUsed, mapAltChange,
        (fillUp held zerocoinDenomList state).nCoinCount,
        (fillUp held zerocoinDenomList state).amountUsed⟩) (BookedApart held) :=
    yields_foldlM (BookedApart held)
      (fun _ listed _ booked => yields_overlapRound listed booked) ⟨filled.within, filled.amount⟩
  refine apart.bind fun apart kept => ?_
  refine (getSpendCoins_exact kept.within kept.amount.symm).bind fun mapOfDenomsUsed made => ?_
  obtain ⟨mapChange, ends, none⟩ := ends_getChange (apart.amountUsed - nValueTarget)
  refine ends.yields_bind ?_
  dsimp only
  split_ifs with better
  · refine yields_some (Or.inr ⟨rfl, ⟨made.1, mapChange, made.2 ▸ ends, rfl⟩, ?_, better.2.2⟩)
    rw [made.2]
    by_contra short
    exact better.1 ⟨by omega, none (by omega)⟩
  · exact yields_some (Or.inl ⟨rfl, rfl, rfl⟩)

/-- A state of the loop that covers the target, after some coins of a denomination. -/
structure CoverState (held : DenomMap) (nValueTarget : Int) (start : AmountCovered)
    (coin : CoinDenomination) (state : AmountCovered) : Prop where
  booked : Booked held nValueTarget state
  remains : state.nRemainingValue =
    start.nRemainingValue - state.mapOfDenomsUsed coin * coin.toAmount
  last : 0 < state.mapOfDenomsUsed coin →
    0 < start.nRemainingValue - (state.mapOfDenomsUsed coin - 1) * coin.toAmount
  others : ∀ other, other ≠ coin → state.mapOfDenomsUsed other = start.mapOfDenomsUsed other

theorem CoverState.use
    {coin : CoinDenomination}
    (during : CoverState held nValueTarget start coin state)
    (listed : coin ∈ zerocoinDenomList)
    (more : state.mapOfDenomsUsed coin < held coin)
    (uncovered : 0 < state.nRemainingValue) :
    CoverState held nValueTarget start coin (state.use coin) where
  booked := during.booked.use listed more
  remains := by
    rw [AmountCovered.use_mapOfDenomsUsed, DenomMap.increment_self,
      AmountCovered.use_nRemainingValue, during.remains, Int.add_mul]
    omega
  last := by
    intro _
    rw [AmountCovered.use_mapOfDenomsUsed, DenomMap.increment_self, Int.add_sub_cancel,
      ← during.remains]
    exact uncovered
  others := fun other different =>
    (state.mapOfDenomsUsed.increment_of_ne different).trans (during.others other different)

theorem yields_coverRound
    {coin : CoinDenomination}
    (listed : coin ∈ zerocoinDenomList)
    (nonneg : 0 ≤ held coin)
    (none : state.mapOfDenomsUsed coin = 0)
    (booked : Booked held nValueTarget state) :
    Yields (fun fuel => doWhile
        (fun state =>
          if held coin ≠ 0 ∧ 0 < state.nRemainingValue then state.use coin else state)
        (coversMore held coin) fuel state) fun next =>
      CoverState held nValueTarget state coin next ∧
        (0 < next.nRemainingValue → next.mapOfDenomsUsed coin = held coin) := by
  -- Before each run of the body there is a coin left, unless none is held.
  refine yields_doWhile
    (fun next => CoverState held nValueTarget state coin next ∧
      (held coin ≠ 0 → next.mapOfDenomsUsed coin < held coin))
    (fun next => (held coin - next.mapOfDenomsUsed coin).toNat) ?_ ?_ ⟨⟨booked, ?_, ?_, ?_⟩, ?_⟩
  · rintro next ⟨during, room⟩ more
    by_cases uses : held coin ≠ 0 ∧ 0 < next.nRemainingValue
    · rw [if_pos uses] at more ⊢
      have fewer := room uses.1
      simp only [coversMore, Bool.and_eq_true, decide_eq_true_eq] at more
      refine ⟨⟨during.use listed fewer uses.2, fun _ => more.2⟩, ?_⟩
      rw [AmountCovered.use_mapOfDenomsUsed, DenomMap.increment_self]
      omega
    · rw [if_neg uses] at more
      simp only [coversMore, Bool.and_eq_true, decide_eq_true_eq] at more
      have counted := (during.booked.within coin listed).1
      exact absurd ⟨by omega, more.1⟩ uses
  · rintro next ⟨during, room⟩ stopped
    by_cases uses : held coin ≠ 0 ∧ 0 < next.nRemainingValue
    · rw [if_pos uses] at stopped ⊢
      have after := during.use listed (room uses.1) uses.2
      refine ⟨after, fun uncovered => ?_⟩
      have limit := (after.booked.within coin listed).2
      simp only [coversMore, uncovered, decide_true, Bool.true_and, decide_eq_false_iff_not]
        at stopped
      omega
    · rw [if_neg uses]
      refine ⟨during, fun uncovered => ?_⟩
      have bounds := during.booked.within coin listed
      omega
  · rw [none, Int.zero_mul, Int.sub_zero]
  · intro some
    omega
  · exact fun _ _ => rfl
  · intro some
    omega

theorem stages_of_covered
    (covered : amount ≤ 0)
    (nonneg : ∀ coin ∈ coins, 0 ≤ held coin)
    (none : ∀ coin ∈ coins, counts coin = 0) :
    Stages (CoversFrom toAmount held) toAmount counts coins amount amount := by
  induction coins with
  | nil => exact (rfl : amount = amount)
  | cons coin rest ih =>
    rw [List.forall_mem_cons] at nonneg none
    rw [Stages, none.1, Int.zero_mul, Int.sub_zero]
    refine ⟨⟨le_refl 0, nonneg.1, fun some => absurd some (lt_irrefl 0), fun uncovered => ?_⟩,
      ih nonneg.2 none.2⟩
    omega

theorem yields_coverLoop
    (listed : ∀ coin ∈ coins, coin ∈ zerocoinDenomList)
    (nodup : coins.Nodup)
    (nonneg : ∀ coin ∈ coins, 0 ≤ held coin)
    (none : ∀ coin ∈ coins, state.mapOfDenomsUsed coin = 0)
    (booked : Booked held nValueTarget state) :
    Yields (fun fuel => coverLoop held fuel coins state) fun result =>
      Booked held nValueTarget result ∧
        Stages (CoversFrom toAmount held) toAmount result.mapOfDenomsUsed coins
          state.nRemainingValue result.nRemainingValue ∧
        ∀ other, other ∉ coins → result.mapOfDenomsUsed other = state.mapOfDenomsUsed other := by
  induction coins generalizing state with
  | nil => exact yields_some ⟨booked, rfl, fun _ _ => rfl⟩
  | cons coin rest ih =>
    rw [List.forall_mem_cons] at listed nonneg none
    obtain ⟨fresh, nodup⟩ := List.nodup_cons.mp nodup
    refine (yields_coverRound listed.1 nonneg.1 none.1 booked).bind fun next taken => ?_
    obtain ⟨during, full⟩ := taken
    have still : ∀ other ∈ rest, next.mapOfDenomsUsed other = 0 := fun other member =>
      (during.others other (ne_of_mem_of_not_mem member fresh)).trans (none.2 other member)
    have bounds := during.booked.within coin listed.1
    have staged : CoversFrom toAmount held coin state.nRemainingValue (next.mapOfDenomsUsed coin) :=
      ⟨bounds.1, bounds.2, during.last, fun uncovered => full (during.remains ▸ uncovered)⟩
    split_ifs with covered
    · refine yields_some ⟨during.booked, ⟨staged, ?_⟩, fun other outside => ?_⟩
      · rw [← during.remains]
        exact stages_of_covered covered.le nonneg.2 still
      · exact during.others other fun same => outside (same ▸ List.mem_cons_self)
    · refine (ih listed.2 nodup nonneg.2 still during.booked).mono fun result after => ?_
      obtain ⟨account, stages, others⟩ := after
      refine ⟨account, ⟨?_, ?_⟩, fun other outside => ?_⟩
      · rw [others coin fresh]
        exact staged
      · rw [others coin fresh, ← during.remains]
        exact stages
      · rw [List.mem_cons, not_or] at outside
        exact (others other outside.2).trans (during.others other outside.1)

/-- The coins reach the target where those held do, and where the limit allows for coins that do,
they are within it. -/
structure ChangeFound.Reaches (held : DenomMap) (nValueTarget nMaxNumberOfSpends : Int)
    (mapOfDenomsUsed : DenomMap) : Prop where
  value : nValueTarget ≤ held.worth → nValueTarget ≤ mapOfDenomsUsed.worth
  limit : ∀ picked : DenomMap, picked.Within held → nValueTarget ≤ picked.worth →
    getNumberOfCoinsUsed picked ≤ nMaxNumberOfSpends →
      getNumberOfCoinsUsed mapOfDenomsUsed ≤ nMaxNumberOfSpends

theorem one_le_getNumberOfCoinsUsed
    (nonneg : ∀ denom ∈ zerocoinDenomList, 0 ≤ picked denom)
    (positive : 0 < picked.worth) :
    1 ≤ getNumberOfCoinsUsed picked := by
  have small := worth_le_number_mul
    (by decide : ∀ denom ∈ zerocoinDenomList, denom.toAmount ≤ zqFiveThousand.toAmount) nonneg
  rw [← getNumberOfCoinsUsed_eq] at small
  by_contra none
  have product : getNumberOfCoinsUsed picked * zqFiveThousand.toAmount ≤ 0 :=
    mul_nonpos_of_nonpos_of_nonneg (by omega) (by decide)
  exact absurd (positive.trans_le (small.trans product)) (lt_irrefl 0)

theorem reaches_of_success
    (reached : nValueTarget ≤ mapOfDenomsUsed.worth)
    (few : getNumberOfCoinsUsed mapOfDenomsUsed ≤ nMaxNumberOfSpends) :
    ChangeFound.Reaches held nValueTarget nMaxNumberOfSpends mapOfDenomsUsed :=
  ⟨fun _ => reached, fun _ _ _ _ => few⟩

theorem yields_changeOfOneCoin
    (nonneg : ∀ denom ∈ zerocoinDenomList, 0 ≤ held denom)
    (listed : denom ∈ zerocoinDenomList)
    (exceeds : nValueTarget < denom.toAmount)
    (some : held denom ≠ 0) :
    Yields (changeOfOneCoin nMaxNumberOfSpends fMinimizeChange nValueTarget held denom) fun found =>
      found.Settled held nValueTarget ∧
        (0 < nValueTarget →
          ChangeFound.Reaches held nValueTarget nMaxNumberOfSpends found.mapOfDenomsUsed) := by
  have coinWorth : (DenomMap.zero.increment denom).worth = denom.toAmount := by
    rw [DenomMap.worth_increment, show DenomMap.zero.worth = 0 by decide, Int.zero_add]
  have one : getNumberOfCoinsUsed (DenomMap.zero.increment denom) = 1 := by
    rw [getNumberOfCoinsUsed_increment _ listed]
    rfl
  have within : (DenomMap.zero.increment denom).Within held := by
    intro other inList
    have held0 := nonneg other inList
    by_cases same : other = denom
    · subst same
      rw [DenomMap.increment_self, DenomMap.zero]
      omega
    · rw [DenomMap.increment_of_ne _ same, DenomMap.zero]
      omega
  have reaches : 0 < nValueTarget → ChangeFound.Reaches held nValueTarget nMaxNumberOfSpends
      (DenomMap.zero.increment denom) := by
    intro positive
    refine ⟨fun _ => coinWorth ▸ exceeds.le, fun picked inside reached few => ?_⟩
    have least := one_le_getNumberOfCoinsUsed (fun denom listed => (inside denom listed).1)
      (positive.trans_le reached)
    omega
  obtain ⟨mapChange, ends, -⟩ := ends_getChange (denom.toAmount - nValueTarget)
  have settled : ∀ success, (⟨getNumberOfCoinsUsed mapChange, DenomMap.zero.increment denom,
      success⟩ : ChangeFound).Settled held nValueTarget := fun success =>
    ⟨within, mapChange, by rwa [coinWorth], rfl⟩
  refine ends.yields_bind ?_
  cases fMinimizeChange with
  | false => exact yields_some ⟨settled _, reaches⟩
  | true =>
    refine (yields_minimizeChange nonneg).bind fun minimized outcome => ?_
    split_ifs with better
    · rcases outcome with ⟨failed, -⟩ | ⟨-, found, reached, few⟩
      · rw [failed] at better
        exact absurd better.2 Bool.false_ne_true
      · exact yields_some ⟨found, fun _ => reaches_of_success reached few⟩
    · exact yields_some ⟨settled _, reaches⟩

theorem sorted_denominations :
    zerocoinDenomList.reverse.Pairwise fun first second => second.toAmount ≤ first.toAmount := by
  decide

theorem yields_changeOfCoins
    (nonneg : ∀ denom ∈ zerocoinDenomList, 0 ≤ held denom) :
    Yields (changeOfCoins nMaxNumberOfSpends fMinimizeChange nValueTarget held) fun found =>
      found.Settled held nValueTarget ∧
        (0 < nValueTarget →
          ChangeFound.Reaches held nValueTarget nMaxNumberOfSpends found.mapOfDenomsUsed) := by
  have listed : ∀ denom ∈ zerocoinDenomList.reverse, denom ∈ zerocoinDenomList := fun _ =>
    List.mem_reverse.mp
  have start : Booked held nValueTarget (.start nValueTarget) := .start nonneg
  have covering := yields_coverLoop listed divisible_denominations.nodup
    (fun denom member => nonneg denom (listed denom member)) (fun _ _ => rfl) start
  refine covering.bind fun covered taken => ?_
  obtain ⟨booked, stages, -⟩ := taken
  have reaches : 0 < nValueTarget → ChangeFound.Reaches held nValueTarget nMaxNumberOfSpends
      covered.mapOfDenomsUsed := by
    intro positive
    constructor
    · intro enough
      have done := stages.left_nonpos divisible_denominations.positive
        (by rw [worth_reverse]; exact enough)
      have remains := booked.remains
      omega
    · intro picked inside reached few
      have fewest := stages.number_le_of_reaches divisible_denominations.positive
        sorted_denominations positive
        (by decide : ∀ denom ∈ zerocoinDenomList.reverse, denom.toAmount ≤ zqFiveThousand.toAmount)
        (fun denom member => inside denom (listed denom member)) (le_refl 0) (by decide)
        (by rw [Int.zero_mul, Int.add_zero, worth_reverse]; exact reached)
      rw [number_reverse, number_reverse, ← getNumberOfCoinsUsed_eq, ← getNumberOfCoinsUsed_eq]
        at fewest
      omega
  obtain ⟨mapChange, ends, -⟩ := ends_getChange (covered.amountUsed - nValueTarget)
  have settled : (⟨getNumberOfCoinsUsed mapChange, covered.mapOfDenomsUsed, false⟩ :
      ChangeFound).Settled held nValueTarget :=
    ⟨booked.within, mapChange, booked.amount ▸ ends, rfl⟩
  refine ends.yields_bind ?_
  refine (yields_minimizeChange nonneg).bind fun minimized outcome => ?_
  dsimp only
  split_ifs with fewer
  · exact yields_some ⟨settled, reaches⟩
  · rcases outcome with ⟨-, count, same⟩ | ⟨-, found, reached, few⟩
    · rw [count, same]
      exact yields_some ⟨settled, reaches⟩
    · exact yields_some ⟨found, fun _ => reaches_of_success reached few⟩

/-- `calculateChange` finds coins that are held, with the number of coins in their change; they
reach a target that there is, within a limit that allows for it. -/
theorem yields_calculateChange
    (nonneg : ∀ denom ∈ zerocoinDenomList, 0 ≤ held denom) :
    Yields (calculateChange nMaxNumberOfSpends fMinimizeChange nValueTarget held) fun found =>
      found.Settled held nValueTarget ∧
        (0 < nValueTarget →
          ChangeFound.Reaches held nValueTarget nMaxNumberOfSpends found.mapOfDenomsUsed) := by
  unfold calculateChange
  cases exceeds : zerocoinDenomList.find? fun denom =>
      nValueTarget < denom.toAmount ∧ held denom ≠ 0 with
  | none => exact yields_changeOfCoins nonneg
  | some denom =>
    have found := List.find?_some exceeds
    simp only [decide_eq_true_eq] at found
    exact yields_changeOfOneCoin nonneg (List.mem_of_find?_eq_some exceeds) found.1 found.2

end ColossusCoin
