import ColossusCoin.Wallet.DenominationFunctions

/-!
# Exact and minimal change

Each denomination divides the larger ones.  So change takes the fewest coins, and coins that are
held are found to make up an amount whenever some of them do.
-/

namespace ColossusCoin

open CoinDenomination CoinSystems Loops

theorem divisible_denominations : Divisible toAmount zerocoinDenomList.reverse where
  positive := by decide
  divides := by decide
  nodup := by decide

theorem toAmount_pos
    (listed : denom ∈ zerocoinDenomList.reverse) :
    0 < denom.toAmount :=
  divisible_denominations.positive denom listed

/-- What so many coins of the denominations are worth. -/
def DenomMap.worth (counts : DenomMap) : Int :=
  CoinSystems.worth toAmount counts zerocoinDenomList

/-- Of each denomination there are at most so many as in another map. -/
def DenomMap.Within (counts held : DenomMap) : Prop :=
  ∀ denom ∈ zerocoinDenomList, 0 ≤ counts denom ∧ counts denom ≤ held denom

theorem getNumberOfCoinsUsed_eq (counts : DenomMap) :
    getNumberOfCoinsUsed counts = number counts zerocoinDenomList := by
  simp only [getNumberOfCoinsUsed, number, zerocoinDenomList, List.foldl_cons, List.foldl_nil,
    List.map_cons, List.map_nil, List.sum_cons, List.sum_nil]
  omega

/-- A state of the loop for a denomination, after some coins since it began. -/
structure RoundState (start : CoinsUsed) (coin : CoinDenomination) (state : CoinsUsed) : Prop where
  count : 0 ≤ state.mapUsed coin
  remains : state.nRemainingValue = start.nRemainingValue - state.mapUsed coin * coin.toAmount
  others : ∀ other, other ≠ coin → state.mapUsed other = start.mapUsed other

variable {state : CoinsUsed} {nValueTarget : Int} {listMints : List DenominatedMint}

theorem RoundState.start
    {coin : CoinDenomination}
    (none : state.mapUsed coin = 0) :
    RoundState state coin state where
  count := none.ge
  remains := by rw [none, Int.zero_mul, Int.sub_zero]
  others := fun _ _ => rfl

@[simp] theorem use_mapUsed (state : CoinsUsed) (coin : CoinDenomination) :
    (state.use coin).mapUsed coin = state.mapUsed coin + 1 :=
  state.mapUsed.increment_self

@[simp] theorem use_nRemainingValue (state : CoinsUsed) (coin : CoinDenomination) :
    (state.use coin).nRemainingValue = state.nRemainingValue - coin.toAmount := rfl

theorem RoundState.use
    {start state : CoinsUsed} {coin : CoinDenomination}
    (during : RoundState start coin state) :
    RoundState start coin (state.use coin) where
  count := by
    have count := during.count
    rw [use_mapUsed]
    omega
  remains := by
    rw [use_mapUsed, use_nRemainingValue, during.remains, Int.add_mul]
    omega
  others := fun other different =>
    (state.mapUsed.increment_of_ne different).trans (during.others other different)

/-- Rounds for the denominations from the largest one on, each of which takes a fitting number of
coins. -/
theorem yields_rounds
    {round : Nat → CoinsUsed → CoinDenomination → Option CoinsUsed}
    {fitting : CoinDenomination → Int → Int → Prop} {nValueTarget : Int}
    (each : ∀ coin ∈ zerocoinDenomList.reverse, ∀ state : CoinsUsed, state.mapUsed coin = 0 →
      0 ≤ state.nRemainingValue → Yields (fun fuel => round fuel state coin) fun next =>
        RoundState state coin next ∧ 0 ≤ next.nRemainingValue ∧
          fitting coin state.nRemainingValue (next.mapUsed coin))
    (notBelow : 0 ≤ nValueTarget) :
    Yields (fun fuel => zerocoinDenomList.reverse.foldlM (round fuel) ⟨.zero, nValueTarget⟩)
      fun result => Stages fitting toAmount result.mapUsed zerocoinDenomList.reverse
        nValueTarget result.nRemainingValue := by
  refine (yields_stages CoinsUsed.mapUsed CoinsUsed.nRemainingValue (fun amount => 0 ≤ amount) ?_
    divisible_denominations.nodup (fun _ _ => rfl) notBelow).mono fun result staged => staged.1
  intro coin listed state none remains
  refine (each coin listed state none remains).mono fun next taken => ?_
  obtain ⟨during, still, fits⟩ := taken
  exact ⟨fits, during.remains, still, during.others⟩

theorem yields_changeRound
    {coin : CoinDenomination}
    (listed : coin ∈ zerocoinDenomList.reverse)
    (none : state.mapUsed coin = 0)
    (notBelow : 0 ≤ state.nRemainingValue) :
    Yields (fun fuel => changeRound fuel state coin) fun next =>
      RoundState state coin next ∧ 0 ≤ next.nRemainingValue ∧
        next.nRemainingValue < coin.toAmount := by
  have positive := toAmount_pos listed
  refine (yields_doWhile_guarded
    (fun next => RoundState state coin next ∧ 0 ≤ next.nRemainingValue)
    (fun next => next.nRemainingValue.toNat) ?_ ⟨.start none, notBelow⟩).mono ?_
  · rintro next ⟨during, remains⟩ fits
    have fits : coin.toAmount ≤ next.nRemainingValue := by simpa [canReturn] using fits
    refine ⟨⟨during.use, ?_⟩, ?_⟩
    · rw [use_nRemainingValue]
      omega
    · rw [use_nRemainingValue]
      omega
  · rintro next ⟨⟨during, remains⟩, stopped⟩
    exact ⟨during, remains, by simpa [canReturn] using stopped⟩

theorem yields_getChange
    (notBelow : 0 ≤ nValueTarget) :
    Yields (getChange nValueTarget) fun mapChange => ∃ left,
      Stages (FitsAny toAmount) toAmount mapChange zerocoinDenomList.reverse nValueTarget left := by
  have rounds : Yields
      (fun fuel => zerocoinDenomList.reverse.foldlM (changeRound fuel) ⟨.zero, nValueTarget⟩)
      fun result => Stages (FitsAny toAmount) toAmount result.mapUsed zerocoinDenomList.reverse
        nValueTarget result.nRemainingValue := by
    refine yields_rounds (fun coin listed state none remains => ?_) notBelow
    refine (yields_changeRound listed none remains).mono fun next taken => ?_
    obtain ⟨during, still, fits⟩ := taken
    refine ⟨during, still, ?_⟩
    rw [during.remains] at still fits
    exact ⟨during.count, still, fits⟩
  exact rounds.bind fun result stages => yields_some ⟨_, stages⟩

/-- The change of an amount misses less than the smallest denomination, and no coins that are worth
as much are fewer. -/
theorem getChange_minimal
    (notBelow : 0 ≤ nValueTarget) :
    Yields (getChange nValueTarget) fun mapChange =>
      (∀ denom ∈ zerocoinDenomList, 0 ≤ mapChange denom) ∧
        mapChange.worth ≤ nValueTarget ∧ nValueTarget - mapChange.worth < zqOne.toAmount ∧
        ∀ other : DenomMap, (∀ denom ∈ zerocoinDenomList, 0 ≤ other denom) →
          other.worth = mapChange.worth →
            getNumberOfCoinsUsed mapChange ≤ getNumberOfCoinsUsed other := by
  refine (yields_getChange notBelow).mono fun mapChange staged => ?_
  obtain ⟨left, stages⟩ := staged
  have remains := stages.left_lt notBelow
  have worths : mapChange.worth = nValueTarget - left := by
    rw [DenomMap.worth, ← worth_reverse, stages.worth_eq]
  have counts := stages.forall_counts (fun _ _ _ count (fits : FitsAny _ _ _ count) => fits.1)
  refine ⟨fun denom listed => counts denom (List.mem_reverse.mpr listed), by omega, ?_, ?_⟩
  · have small := remains.2.2 .zqOne (by decide)
    omega
  · intro other nonneg same
    rw [DenomMap.worth, DenomMap.worth, ← worth_reverse, ← worth_reverse zerocoinDenomList] at same
    have fewest := stages.number_le divisible_denominations notBelow
      (toAmount_pos (by decide : zqFiveThousand ∈ zerocoinDenomList.reverse)) (by decide)
      (fun denom listed => nonneg denom (List.mem_reverse.mp listed)) (le_refl 0)
      (by rw [same, Int.zero_mul, Int.zero_add])
    rw [getNumberOfCoinsUsed_eq, getNumberOfCoinsUsed_eq, ← number_reverse,
      ← number_reverse zerocoinDenomList]
    omega

theorem yields_spendRound
    {coin : CoinDenomination}
    (listed : coin ∈ zerocoinDenomList.reverse)
    (nonneg : 0 ≤ held coin)
    (none : state.mapUsed coin = 0)
    (notBelow : 0 ≤ state.nRemainingValue) :
    Yields (fun fuel => spendRound held fuel state coin) fun next =>
      RoundState state coin next ∧ 0 ≤ next.nRemainingValue ∧ next.mapUsed coin ≤ held coin ∧
        (next.mapUsed coin < held coin → next.nRemainingValue < coin.toAmount) := by
  have positive := toAmount_pos listed
  refine (yields_doWhile_guarded
    (fun next => RoundState state coin next ∧ 0 ≤ next.nRemainingValue ∧
      next.mapUsed coin ≤ held coin)
    (fun next => next.nRemainingValue.toNat) ?_ ⟨.start none, notBelow, none ▸ nonneg⟩).mono ?_
  · rintro next ⟨during, remains, few⟩ fits
    have fits : coin.toAmount ≤ next.nRemainingValue ∧ next.mapUsed coin < held coin := by
      simpa [canSpend] using fits
    refine ⟨⟨during.use, ?_, ?_⟩, ?_⟩
    · rw [use_nRemainingValue]
      omega
    · rw [use_mapUsed]
      omega
    · rw [use_nRemainingValue]
      omega
  · rintro next ⟨⟨during, remains, few⟩, stopped⟩
    refine ⟨during, remains, few, fun more => ?_⟩
    by_contra fits
    have again : canSpend held coin next = true := by
      simpa [canSpend, more] using fits
    rw [again] at stopped
    cases stopped

theorem yields_getSpendCoins
    {held : DenomMap}
    (notBelow : 0 ≤ nValueTarget)
    (nonneg : ∀ denom ∈ zerocoinDenomList, 0 ≤ held denom) :
    Yields (getSpendCoins nValueTarget held) fun mapUsed => ∃ left,
      Stages (CoinSystems.Fits toAmount held) toAmount mapUsed zerocoinDenomList.reverse
        nValueTarget left := by
  have rounds : Yields
      (fun fuel => zerocoinDenomList.reverse.foldlM (spendRound held fuel) ⟨.zero, nValueTarget⟩)
      fun result => Stages (CoinSystems.Fits toAmount held) toAmount result.mapUsed
        zerocoinDenomList.reverse nValueTarget result.nRemainingValue := by
    refine yields_rounds (fun coin listed state none remains => ?_) notBelow
    refine (yields_spendRound listed (nonneg coin (List.mem_reverse.mp listed)) none remains).mono
      fun next taken => ?_
    obtain ⟨during, still, few, fits⟩ := taken
    refine ⟨during, still, ?_⟩
    rw [during.remains] at still fits
    exact ⟨during.count, few, still, fits⟩
  exact rounds.bind fun result stages => yields_some ⟨_, stages⟩

/-- Some of the coins that are held make up the amount, and then those of `getSpendCoins` do. -/
theorem getSpendCoins_exact
    {held picked : DenomMap}
    (within : picked.Within held)
    (made : picked.worth = nValueTarget) :
    Yields (getSpendCoins nValueTarget held) fun mapUsed =>
      mapUsed.Within held ∧ mapUsed.worth = nValueTarget := by
  have notBelow : 0 ≤ nValueTarget := by
    rw [← made, DenomMap.worth, ← worth_reverse]
    exact worth_nonneg divisible_denominations.positive fun denom listed =>
      (within denom (List.mem_reverse.mp listed)).1
  have nonneg : ∀ denom ∈ zerocoinDenomList, 0 ≤ held denom := fun denom listed =>
    (within denom listed).1.trans (within denom listed).2
  refine (yields_getSpendCoins notBelow nonneg).mono fun mapUsed staged => ?_
  obtain ⟨left, stages⟩ := staged
  have counts := stages.forall_counts
    (fun coin _ _ count (fits : CoinSystems.Fits toAmount held coin _ count) =>
      (⟨fits.1, fits.2.1⟩ : 0 ≤ count ∧ count ≤ held coin))
  refine ⟨fun denom listed => counts denom (List.mem_reverse.mpr listed), ?_⟩
  have none := stages.left_eq_zero divisible_denominations
    (fun denom listed => within denom (List.mem_reverse.mp listed))
    ((worth_reverse zerocoinDenomList).trans made)
  rw [DenomMap.worth, ← worth_reverse, stages.worth_eq, none, Int.sub_zero]

/-- How many mints there are of each denomination. -/
def countsOf (mints : List DenominatedMint) : DenomMap := fun denom =>
  (mints.countP fun mint => mint.denomination = denom)

/-- The mints that can be spent. -/
def unusedMints (listMints : List DenominatedMint) : List DenominatedMint :=
  listMints.filter fun mint => !mint.isUsed

/-- What mints are worth. -/
def amountOf (mints : List DenominatedMint) : Int :=
  (mints.map DenominatedMint.denominationAsAmount).sum

theorem countsOf_cons (mint : DenominatedMint) (mints : List DenominatedMint) :
    countsOf (mint :: mints) = (countsOf mints).increment mint.denomination := by
  funext denom
  by_cases same : denom = mint.denomination
  · subst same
    rw [DenomMap.increment_self, countsOf, countsOf,
      List.countP_cons_of_pos (by simp), Nat.cast_add, Nat.cast_one]
  · rw [DenomMap.increment_of_ne _ same, countsOf, countsOf,
      List.countP_cons_of_neg (by simpa using Ne.symm same)]

theorem countsOf_nonneg (mints : List DenominatedMint) (denom : CoinDenomination) :
    0 ≤ countsOf mints denom :=
  Int.natCast_nonneg _

theorem denominationAsAmount_eq (mint : DenominatedMint) :
    mint.denominationAsAmount = mint.denomination.toAmount :=
  Int.mul_comm _ _

theorem DenomMap.worth_increment (counts : DenomMap) (denom : CoinDenomination) :
    (counts.increment denom).worth = counts.worth + denom.toAmount := by
  rw [DenomMap.worth, DenomMap.worth, DenomMap.increment]
  by_cases listed : denom ∈ zerocoinDenomList
  · rw [(sums_update (List.nodup_reverse.mp divisible_denominations.nodup) listed _ _).1]
    omega
  · have none : denom = .zqError := by
      revert listed
      cases denom <;> decide
    have free : CoinDenomination.zqError.toAmount = 0 := by decide
    rw [worth_update listed, none, free, Int.add_zero]

theorem worth_countsOf (mints : List DenominatedMint) :
    (countsOf mints).worth = amountOf mints := by
  induction mints with
  | nil => rfl
  | cons mint mints ih =>
    rw [countsOf_cons, DenomMap.worth_increment, ih, amountOf, amountOf,
      List.map_cons, List.sum_cons, denominationAsAmount_eq, Int.add_comm]

theorem within_of_subperm
    (some : selection.Subperm mints) :
    (countsOf selection).Within (countsOf mints) :=
  fun denom _ => ⟨countsOf_nonneg selection denom, Int.ofNat_le.mpr (some.countP_le _)⟩

/-- A round of `getIdealSpends` takes as many coins as fit and can be spent. -/
theorem idealRound_spec
    {coin : CoinDenomination} {start state : CoinsUsed}
    (during : RoundState start coin state)
    (notBelow : 0 ≤ state.nRemainingValue) :
    RoundState start coin (idealRound coin listMints state) ∧
      0 ≤ (idealRound coin listMints state).nRemainingValue ∧
      (idealRound coin listMints state).mapUsed coin ≤
        state.mapUsed coin + countsOf (unusedMints listMints) coin ∧
      ((idealRound coin listMints state).mapUsed coin <
          state.mapUsed coin + countsOf (unusedMints listMints) coin →
        (idealRound coin listMints state).nRemainingValue < coin.toAmount) := by
  induction listMints generalizing state with
  | nil =>
    have none : countsOf (unusedMints []) coin = 0 := rfl
    rw [idealRound, none]
    exact ⟨during, notBelow, by omega, by omega⟩
  | cons mint listMints ih =>
    rw [idealRound]
    by_cases used : mint.isUsed = true
    · rw [if_pos used, unusedMints, List.filter_cons_of_neg (by simp [used])]
      exact ih during notBelow
    · rw [if_neg used, unusedMints, List.filter_cons_of_pos (by simp [used]), countsOf_cons,
        ← unusedMints]
      have counted := countsOf_nonneg (unusedMints listMints) coin
      by_cases takes : coin.toAmount ≤ state.nRemainingValue ∧ coin = mint.denomination
      · obtain ⟨fits, same⟩ := takes
        have one : ({ mapUsed := state.mapUsed.increment coin
                      nRemainingValue := state.nRemainingValue - mint.denominationAsAmount } :
            CoinsUsed) = state.use coin := by
          rw [denominationAsAmount_eq, ← same]
          rfl
        rw [if_pos (And.intro fits same), one, ← same, DenomMap.increment_self]
        have after := during.use
        have remains : 0 ≤ (state.use coin).nRemainingValue := by
          rw [use_nRemainingValue]
          omega
        by_cases full : (state.use coin).nRemainingValue < coin.toAmount
        · rw [if_pos full, use_mapUsed]
          exact ⟨after, remains, by omega, fun _ => full⟩
        · rw [if_neg full]
          have rested := ih after remains
          rw [use_mapUsed] at rested
          exact ⟨rested.1, rested.2.1, by omega, fun fewer => rested.2.2.2 (by omega)⟩
      · rw [if_neg takes]
        by_cases full : state.nRemainingValue < coin.toAmount
        · rw [if_pos full]
          refine ⟨during, notBelow, ?_, fun _ => full⟩
          have more := countsOf_nonneg (mint :: unusedMints listMints) coin
          rw [countsOf_cons] at more
          omega
        · have different : coin ≠ mint.denomination := fun same =>
            takes ⟨not_lt.mp full, same⟩
          rw [if_neg full, DenomMap.increment_of_ne _ different]
          exact ih during notBelow

theorem getIdealSpends_stages
    (listMints : List DenominatedMint)
    (notBelow : 0 ≤ nValueTarget) :
    ∃ left, (getIdealSpends nValueTarget listMints).1 = (left == 0) ∧
      Stages (CoinSystems.Fits toAmount (countsOf (unusedMints listMints))) toAmount
        (getIdealSpends nValueTarget listMints).2 zerocoinDenomList.reverse nValueTarget left := by
  have rounds : Yields
      (fun _ => zerocoinDenomList.reverse.foldlM
        (fun state coin => pure (idealRound coin listMints state))
        (⟨.zero, nValueTarget⟩ : CoinsUsed))
      fun result => Stages (CoinSystems.Fits toAmount (countsOf (unusedMints listMints))) toAmount
        result.mapUsed zerocoinDenomList.reverse nValueTarget result.nRemainingValue := by
    refine @yields_rounds (fun _ state coin => pure (idealRound coin listMints state)) _ _
      (fun coin listed state none remains => ?_) notBelow
    obtain ⟨during, still, few, fits⟩ := @idealRound_spec listMints coin state state
      (.start none) remains
    refine yields_some ⟨during, still, ?_⟩
    rw [none, Int.zero_add] at few fits
    rw [during.remains] at still fits
    exact ⟨during.count, few, still, fits⟩
  obtain ⟨result, ⟨enough, gives⟩, stages⟩ := rounds
  have folded := gives enough (le_refl enough)
  rw [List.foldlM_pure] at folded
  have ideal : getIdealSpends nValueTarget listMints =
      (result.nRemainingValue == 0, result.mapUsed) := by
    rw [← Option.some.inj folded]
    rfl
  rw [ideal]
  exact ⟨_, rfl, stages⟩

/-- Where `getIdealSpends` succeeds its coins are held and make up the target. -/
theorem getIdealSpends_sound
    (notBelow : 0 ≤ nValueTarget)
    (meets : (getIdealSpends nValueTarget listMints).1 = true) :
    (getIdealSpends nValueTarget listMints).2.Within (countsOf (unusedMints listMints)) ∧
      (getIdealSpends nValueTarget listMints).2.worth = nValueTarget := by
  obtain ⟨left, ideal, stages⟩ := getIdealSpends_stages listMints notBelow
  have none : left = 0 := by simpa [ideal] using meets
  have counts := stages.forall_counts
    (fun coin _ _ count
        (fits : CoinSystems.Fits toAmount (countsOf (unusedMints listMints)) coin _ count) =>
      (⟨fits.1, fits.2.1⟩ : 0 ≤ count ∧ count ≤ countsOf (unusedMints listMints) coin))
  refine ⟨fun denom listed => counts denom (List.mem_reverse.mpr listed), ?_⟩
  rw [DenomMap.worth, ← worth_reverse, stages.worth_eq, none, Int.sub_zero]

theorem getIdealSpends_exact
    (some : selection.Subperm (unusedMints listMints))
    (made : amountOf selection = nValueTarget) :
    (getIdealSpends nValueTarget listMints).1 = true ∧
      (getIdealSpends nValueTarget listMints).2.Within (countsOf (unusedMints listMints)) ∧
      (getIdealSpends nValueTarget listMints).2.worth = nValueTarget := by
  have within := within_of_subperm some
  have notBelow : 0 ≤ nValueTarget := by
    rw [← made, ← worth_countsOf, DenomMap.worth, ← worth_reverse]
    exact worth_nonneg divisible_denominations.positive fun denom _ =>
      countsOf_nonneg selection denom
  obtain ⟨left, ideal, stages⟩ := getIdealSpends_stages listMints notBelow
  have none := stages.left_eq_zero divisible_denominations
    (fun denom listed => within denom (List.mem_reverse.mp listed))
    ((worth_reverse zerocoinDenomList).trans ((worth_countsOf selection).trans made))
  have meets : (getIdealSpends nValueTarget listMints).1 = true := by rw [ideal, none]; rfl
  exact ⟨meets, getIdealSpends_sound notBelow meets⟩

/-- Change misses less than the smallest denomination and takes the fewest coins, and an amount that
some of the coins held make up is made up exactly, by counts of coins and by mints. -/
theorem denominations_exact_and_minimal :
    (∀ nValueTarget, 0 ≤ nValueTarget →
      Yields (getChange nValueTarget) fun mapChange =>
        (∀ denom ∈ zerocoinDenomList, 0 ≤ mapChange denom) ∧
          mapChange.worth ≤ nValueTarget ∧ nValueTarget - mapChange.worth < zqOne.toAmount ∧
          ∀ other : DenomMap, (∀ denom ∈ zerocoinDenomList, 0 ≤ other denom) →
            other.worth = mapChange.worth →
              getNumberOfCoinsUsed mapChange ≤ getNumberOfCoinsUsed other) ∧
      (∀ nValueTarget mapOfDenomsHeld,
        (∃ picked : DenomMap, picked.Within mapOfDenomsHeld ∧ picked.worth = nValueTarget) →
          Yields (getSpendCoins nValueTarget mapOfDenomsHeld) fun mapUsed =>
            mapUsed.Within mapOfDenomsHeld ∧ mapUsed.worth = nValueTarget) ∧
      ∀ nValueTarget listMints,
        (∃ selection : List DenominatedMint,
          selection.Subperm (unusedMints listMints) ∧ amountOf selection = nValueTarget) →
          (getIdealSpends nValueTarget listMints).1 = true ∧
            (getIdealSpends nValueTarget listMints).2.Within (countsOf (unusedMints listMints)) ∧
            (getIdealSpends nValueTarget listMints).2.worth = nValueTarget := by
  refine ⟨fun nValueTarget notBelow => getChange_minimal notBelow, ?_, ?_⟩
  · rintro nValueTarget mapOfDenomsHeld ⟨picked, within, made⟩
    exact getSpendCoins_exact within made
  · rintro nValueTarget listMints ⟨selection, some, made⟩
    exact getIdealSpends_exact some made

/-- A mint of the smallest denomination. -/
def smallestMint : DenominatedMint where
  value := 7
  serialNumber := 11
  txHash := 13
  nHeight := 1
  isUsed := false
  denomination := .zqOne

theorem denominations_exact_and_minimal_smallest :
    (Yields (getChange (75 * coin)) fun mapChange =>
      (∀ denom ∈ zerocoinDenomList, 0 ≤ mapChange denom) ∧
        mapChange.worth ≤ 75 * coin ∧ 75 * coin - mapChange.worth < zqOne.toAmount ∧
        ∀ other : DenomMap, (∀ denom ∈ zerocoinDenomList, 0 ≤ other denom) →
          other.worth = mapChange.worth →
            getNumberOfCoinsUsed mapChange ≤ getNumberOfCoinsUsed other) ∧
      (Yields (getSpendCoins (50 * coin) (DenomMap.zero.increment .zqOne)) fun mapUsed =>
        mapUsed.Within (DenomMap.zero.increment .zqOne) ∧ mapUsed.worth = 50 * coin) ∧
      (getIdealSpends (50 * coin) [smallestMint]).1 = true :=
  ⟨denominations_exact_and_minimal.1 (75 * coin) (by decide),
    denominations_exact_and_minimal.2.1 (50 * coin) (DenomMap.zero.increment .zqOne)
      ⟨DenomMap.zero.increment .zqOne, by unfold DenomMap.Within; decide, by decide⟩,
    (denominations_exact_and_minimal.2.2 (50 * coin) [smallestMint]
      ⟨[smallestMint], List.Subperm.refl _, by decide⟩).1⟩

end ColossusCoin
