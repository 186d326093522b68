import ColossusCoin.Wallet.CalculatedChange

/-!
# Mints that are selected

For the coins that are used of each denomination as many mints are taken off the list, and each of
them once.  Together with the coins that are calculated this is what a selection is worth.
-/

namespace ColossusCoin

open CoinDenomination CoinSystems Loops

variable {listMints : List DenominatedMint} {coin : CoinDenomination}

/-- The unused mints of a denomination. -/
def mintsOf (listMints : List DenominatedMint) (coin : CoinDenomination) :
    List DenominatedMint :=
  (unusedMints listMints).filter fun mint => mint.denomination = coin

theorem length_mintsOf (listMints : List DenominatedMint) (coin : CoinDenomination) :
    ((mintsOf listMints coin).length : Int) = countsOf (unusedMints listMints) coin := by
  rw [mintsOf, ← List.countP_eq_length_filter, countsOf]

theorem mintsOf_cons (mint : DenominatedMint) (listMints : List DenominatedMint) :
    mintsOf (mint :: listMints) coin =
      if mint.isUsed = false ∧ mint.denomination = coin then mint :: mintsOf listMints coin
      else mintsOf listMints coin := by
  cases used : mint.isUsed with
  | true => simp [mintsOf, unusedMints, used]
  | false =>
    by_cases same : mint.denomination = coin
    · simp [mintsOf, unusedMints, used, same]
    · simp [mintsOf, unusedMints, used, same]

/-- A pass over the mints takes so many of the denomination as are still to be used, or all. -/
theorem foldl_selectMint
    (listMints : List DenominatedMint) (state : MintsSelected)
    (nonneg : 0 ≤ state.mapOfDenomsUsed coin) :
    listMints.foldl (selectMint coin) state =
      { vSelectedMints := state.vSelectedMints ++
          (mintsOf listMints coin).take (state.mapOfDenomsUsed coin).toNat
        mapOfDenomsUsed := Function.update state.mapOfDenomsUsed coin
          (state.mapOfDenomsUsed coin -
            ((mintsOf listMints coin).take (state.mapOfDenomsUsed coin).toNat).length)
        nCoinsSpentValue := state.nCoinsSpentValue +
          ((mintsOf listMints coin).take (state.mapOfDenomsUsed coin).toNat).length *
            coin.toAmount } := by
  induction listMints generalizing state with
  | nil => simp [mintsOf, unusedMints]
  | cons mint listMints ih =>
    rw [List.foldl_cons, mintsOf_cons]
    by_cases takes : mint.isUsed = false ∧ mint.denomination = coin
    · rw [if_pos takes]
      by_cases none : state.mapOfDenomsUsed coin = 0
      · have kept : selectMint coin state mint = state := by
          simp [selectMint, takes.1, none]
        rw [kept, ih state nonneg, none]
        simp
      · have one : selectMint coin state mint =
            { vSelectedMints := state.vSelectedMints ++ [mint]
              mapOfDenomsUsed := state.mapOfDenomsUsed.decrement coin
              nCoinsSpentValue := state.nCoinsSpentValue + coin.toAmount } := by
          rw [selectMint, takes.1, if_neg Bool.false_ne_true, if_pos ⟨takes.2.symm, none⟩]
        obtain ⟨more, count⟩ := Int.eq_ofNat_of_zero_le
          (show 0 ≤ state.mapOfDenomsUsed coin - 1 by omega)
        have size : (state.mapOfDenomsUsed coin).toNat = more + 1 := by omega
        have rest : (state.mapOfDenomsUsed.decrement coin coin).toNat = more := by
          rw [DenomMap.decrement_self]
          omega
        rw [one, ih _ (by dsimp only; rw [DenomMap.decrement_self]; omega)]
        dsimp only
        rw [rest, size, List.take_succ_cons, List.length_cons, DenomMap.decrement,
          Function.update_idem, Function.update_self, List.append_assoc, List.singleton_append]
        simp only [MintsSelected.mk.injEq, true_and]
        constructor
        · congr 1
          omega
        · rw [Nat.cast_add, Nat.cast_one, Int.add_mul]
          omega
    · rw [if_neg takes]
      have kept : selectMint coin state mint = state := by
        rw [selectMint]
        by_cases used : mint.isUsed = true
        · rw [if_pos used]
        · rw [if_neg used, if_neg fun both => takes ⟨by simpa using used, both.1.symm⟩]
      rw [kept, ih state nonneg]

/-- A round of `getSpends` takes mints for all coins of the denomination, if there are so many. -/
theorem ends_selectRound
    {state : MintsSelected}
    (nonneg : 0 ≤ state.mapOfDenomsUsed coin)
    (enough : state.mapOfDenomsUsed coin ≤ countsOf (unusedMints listMints) coin) :
    Ends (fun fuel => selectRound listMints fuel state coin)
      { vSelectedMints := state.vSelectedMints ++
          (mintsOf listMints coin).take (state.mapOfDenomsUsed coin).toNat
        mapOfDenomsUsed := Function.update state.mapOfDenomsUsed coin 0
        nCoinsSpentValue := state.nCoinsSpentValue +
          state.mapOfDenomsUsed coin * coin.toAmount } := by
  have pass := foldl_selectMint listMints state nonneg
  have size : (((mintsOf listMints coin).take (state.mapOfDenomsUsed coin).toNat).length : Int) =
      state.mapOfDenomsUsed coin := by
    have all := length_mintsOf listMints coin
    rw [List.length_take]
    omega
  rw [size, Int.sub_self] at pass
  rw [← pass]
  refine ends_doWhile_once ?_
  rw [pass]
  simp

theorem amountOf_append (first second : List DenominatedMint) :
    amountOf (first ++ second) = amountOf first + amountOf second := by
  rw [amountOf, List.map_append, List.sum_append, amountOf, amountOf]

theorem amountOf_of_denomination
    (same : ∀ mint ∈ mints, mint.denomination = coin) :
    amountOf mints = mints.length * coin.toAmount := by
  induction mints with
  | nil => simp [amountOf]
  | cons mint rest ih =>
    rw [List.forall_mem_cons] at same
    have rested := ih same.2
    rw [amountOf] at rested ⊢
    rw [List.map_cons, List.sum_cons, rested, denominationAsAmount_eq, same.1, List.length_cons,
      Nat.cast_add, Nat.cast_one, Int.add_mul]
    omega

/-- Some of the unused mints, for some coins of each denomination. -/
structure SelectedFor (listMints : List DenominatedMint) (counts : DenomMap)
    (coins : List CoinDenomination) (more : List DenominatedMint) : Prop where
  denominations : ∀ mint ∈ more, mint.denomination ∈ coins
  unused : more.Subperm (unusedMints listMints)
  size : (more.length : Int) = number counts coins
  amount : amountOf more = worth toAmount counts coins

variable {held : DenomMap}

theorem SelectedFor.cons
    (selected : SelectedFor listMints counts rest more)
    (fresh : coin ∉ rest)
    (nonneg : 0 ≤ counts coin)
    (enough : counts coin ≤ countsOf (unusedMints listMints) coin) :
    SelectedFor listMints counts (coin :: rest)
      ((mintsOf listMints coin).take (counts coin).toNat ++ more) := by
  have taken : ((mintsOf listMints coin).take (counts coin).toNat).Sublist
      (mintsOf listMints coin) := List.take_sublist _ _
  have same : ∀ mint ∈ (mintsOf listMints coin).take (counts coin).toNat,
      mint.denomination = coin := fun mint member => by
    simpa using (List.mem_filter.mp (taken.subset member)).2
  have size : (((mintsOf listMints coin).take (counts coin).toNat).length : Int) = counts coin := by
    have all := length_mintsOf listMints coin
    rw [List.length_take]
    omega
  refine { denominations := ?_, unused := ?_, size := ?_, amount := ?_ }
  · intro mint member
    rcases List.mem_append.mp member with first | later
    · rw [same mint first]
      exact List.mem_cons_self
    · exact List.mem_cons_of_mem _ (selected.denominations mint later)
  · rw [List.subperm_ext_iff]
    intro mint _
    rw [List.count_append]
    by_cases here : mint.denomination = coin
    · have none : more.count mint = 0 := List.count_eq_zero.mpr fun later =>
        fresh (here ▸ selected.denominations mint later)
      rw [none, Nat.add_zero]
      exact (taken.trans List.filter_sublist).count_le mint
    · have none : ((mintsOf listMints coin).take (counts coin).toNat).count mint = 0 :=
        List.count_eq_zero.mpr fun first => here (same mint first)
      rw [none, Nat.zero_add]
      exact selected.unused.count_le mint
  · rw [List.length_append, Nat.cast_add, size, selected.size, number_cons]
  · rw [amountOf_append, amountOf_of_denomination same, size, selected.amount, worth_cons]

theorem yields_selectRounds
    {coins : List CoinDenomination} {counts : DenomMap} {state : MintsSelected}
    (nodup : coins.Nodup)
    (within : ∀ coin ∈ coins, 0 ≤ counts coin ∧
      counts coin ≤ countsOf (unusedMints listMints) coin)
    (same : ∀ coin ∈ coins, state.mapOfDenomsUsed coin = counts coin) :
    Yields (fun fuel => coins.foldlM (selectRound listMints fuel) state) fun result =>
      ∃ more, SelectedFor listMints counts coins more ∧
        result.vSelectedMints = state.vSelectedMints ++ more ∧
        result.nCoinsSpentValue = state.nCoinsSpentValue + amountOf more := by
  induction coins generalizing state with
  | nil =>
    refine yields_some ⟨[], ⟨fun _ none => absurd none List.not_mem_nil, List.nil_subperm, rfl,
      rfl⟩, (List.append_nil _).symm, (Int.add_zero _).symm⟩
  | cons coin rest ih =>
    rw [List.forall_mem_cons] at within same
    obtain ⟨fresh, nodup⟩ := List.nodup_cons.mp nodup
    have round := @ends_selectRound listMints coin state (same.1 ▸ within.1.1) (same.1 ▸ within.1.2)
    rw [same.1] at round
    have steps : Yields
        (fun fuel => selectRound listMints fuel state coin >>= fun next =>
          rest.foldlM (selectRound listMints fuel) next)
        fun result => ∃ more, SelectedFor listMints counts (coin :: rest) more ∧
          result.vSelectedMints = state.vSelectedMints ++ more ∧
          result.nCoinsSpentValue = state.nCoinsSpentValue + amountOf more := by
      refine round.yields_bind ((ih nodup within.2 ?_).mono ?_)
      · intro other member
        exact (Function.update_of_ne (ne_of_mem_of_not_mem member fresh) _ _).trans
          (same.2 other member)
      · rintro result ⟨more, selected, mints, value⟩
        have all := selected.cons fresh within.1.1 within.1.2
        refine ⟨_, all, ?_, ?_⟩
        · rw [mints, List.append_assoc]
        · rw [value, all.amount, worth_cons, selected.amount, Int.add_assoc]
    simpa only [List.foldlM_cons] using steps

theorem yields_getSpends
    (within : counts.Within (countsOf (unusedMints listMints))) :
    Yields (getSpends listMints counts) fun spends =>
      spends.1.Subperm (unusedMints listMints) ∧ amountOf spends.1 = counts.worth ∧
        spends.2 = counts.worth ∧ (spends.1.length : Int) = getNumberOfCoinsUsed counts := by
  have rounds := @yields_selectRounds listMints zerocoinDenomList.reverse counts ⟨[], counts, 0⟩
    divisible_denominations.nodup (fun coin listed => within coin (List.mem_reverse.mp listed))
    fun _ _ => rfl
  refine rounds.bind fun result taken => ?_
  obtain ⟨more, selected, mints, value⟩ := taken
  have amount : amountOf more = counts.worth := by
    rw [selected.amount, worth_reverse, DenomMap.worth]
  refine yields_some ⟨?_, ?_, ?_, ?_⟩
  · rw [mints]
    exact selected.unused
  · rw [mints]
    exact amount
  · rw [value, amount]
    exact Int.zero_add _
  · rw [mints, List.nil_append, selected.size, number_reverse, getNumberOfCoinsUsed_eq]

/-- The map has as many coins under each denomination as there are unused mints of it. -/
def DenomMap.Counts (mapOfDenomsHeld : DenomMap) (listMints : List DenominatedMint) : Prop :=
  ∀ denom ∈ zerocoinDenomList,
    mapOfDenomsHeld denom = countsOf (unusedMints listMints) denom

/-- What a selection is, as far as it selects mints. -/
structure MintSelection.Sound (listMints : List DenominatedMint) (nValueTarget : Int)
    (selection : MintSelection) : Prop where
  unused : selection.vSelectedMints.Subperm (unusedMints listMints)
  value : selection.nSelectedValue = amountOf selection.vSelectedMints
  change : ∃ mapChange, Ends (getChange (selection.nSelectedValue - nValueTarget)) mapChange ∧
    selection.nCoinsReturned = getNumberOfCoinsUsed mapChange

/-- A selection for a target that there is reaches it, within a limit that allows for it. -/
structure MintSelection.Reaches (listMints : List DenominatedMint)
    (nValueTarget nMaxNumberOfSpends : Int) (selection : MintSelection) : Prop where
  value : nValueTarget ≤ amountOf (unusedMints listMints) →
    selection.vSelectedMints ≠ [] ∧ nValueTarget ≤ selection.nSelectedValue
  limit : ∀ picked : List DenominatedMint, picked.Subperm (unusedMints listMints) →
    nValueTarget ≤ amountOf picked → (picked.length : Int) ≤ nMaxNumberOfSpends →
      (selection.vSelectedMints.length : Int) ≤ nMaxNumberOfSpends

theorem DenomMap.Counts.worth_eq
    (counts : held.Counts listMints) :
    held.worth = amountOf (unusedMints listMints) := by
  rw [← worth_countsOf]
  exact worth_congr counts

theorem DenomMap.Counts.within_iff
    (counts : held.Counts listMints)
    (used : DenomMap) :
    used.Within held ↔ used.Within (countsOf (unusedMints listMints)) := by
  constructor
  · intro within denom listed
    rw [← counts denom listed]
    exact within denom listed
  · intro within denom listed
    rw [counts denom listed]
    exact within denom listed

theorem getNumberOfCoinsUsed_countsOf_le (mints : List DenominatedMint) :
    getNumberOfCoinsUsed (countsOf mints) ≤ mints.length := by
  induction mints with
  | nil => exact le_refl 0
  | cons mint mints ih =>
    rw [countsOf_cons, List.length_cons, Nat.cast_add, Nat.cast_one]
    by_cases listed : mint.denomination ∈ zerocoinDenomList
    · rw [getNumberOfCoinsUsed_increment _ listed]
      omega
    · have same : getNumberOfCoinsUsed ((countsOf mints).increment mint.denomination) =
          getNumberOfCoinsUsed (countsOf mints) := by
        rw [getNumberOfCoinsUsed_eq, getNumberOfCoinsUsed_eq]
        exact congrArg List.sum (List.map_congr_left fun other member =>
          DenomMap.increment_of_ne _ (ne_of_mem_of_not_mem member listed))
      omega

theorem yields_selectWithChange
    (counts : held.Counts listMints) :
    Yields (selectWithChange nValueTarget nSelectedValue nMaxNumberOfSpends fMinimizeChange
        listMints held nNeededSpends) fun selection =>
      (selection.vSelectedMints ≠ [] → selection.Sound listMints nValueTarget) ∧
        (0 < nValueTarget → selection.Reaches listMints nValueTarget nMaxNumberOfSpends) := by
  have nonneg : ∀ denom ∈ zerocoinDenomList, 0 ≤ held denom := fun denom listed =>
    counts denom listed ▸ countsOf_nonneg _ _
  refine (yields_calculateChange nonneg).bind fun found outcome => ?_
  obtain ⟨⟨within, mapChange, ends, count⟩, reaches⟩ := outcome
  -- The limit for mints is that for the coins that are used.
  have limited : 0 < nValueTarget → ∀ picked : List DenominatedMint,
      picked.Subperm (unusedMints listMints) → nValueTarget ≤ amountOf picked →
        (picked.length : Int) ≤ nMaxNumberOfSpends →
          getNumberOfCoinsUsed found.mapOfDenomsUsed ≤ nMaxNumberOfSpends := by
    intro positive picked some reached few
    refine (reaches positive).limit (countsOf picked)
      ((counts.within_iff _).mpr (within_of_subperm some)) ?_ ?_
    · rwa [worth_countsOf]
    · exact (getNumberOfCoinsUsed_countsOf_le picked).trans few
  have spent : 0 < nValueTarget → nValueTarget ≤ amountOf (unusedMints listMints) →
      0 < found.mapOfDenomsUsed.worth := by
    intro positive enough
    rw [← counts.worth_eq] at enough
    exact positive.trans_le ((reaches positive).value enough)
  have counted : ∀ denom ∈ zerocoinDenomList, 0 ≤ found.mapOfDenomsUsed denom :=
    fun denom listed => (within denom listed).1
  split_ifs with none
  · refine yields_some ⟨fun some => absurd rfl some, fun positive => ⟨fun enough => ?_, ?_⟩⟩
    · have least := one_le_getNumberOfCoinsUsed counted (spent positive enough)
      omega
    · intro picked some reached few
      have least := limited positive picked some reached few
      rw [List.length_nil, Nat.cast_zero]
      omega
  · have selecting := yields_getSpends ((counts.within_iff _).mp within)
    refine selecting.bind fun spends selected => ?_
    obtain ⟨unused, amount, value, size⟩ := selected
    refine yields_some ⟨fun _ => ⟨unused, value.trans amount.symm, mapChange, ?_, count⟩,
      fun positive => ⟨fun enough => ⟨?_, ?_⟩, ?_⟩⟩
    · rwa [value]
    · intro empty
      have least := one_le_getNumberOfCoinsUsed counted (spent positive enough)
      dsimp only at empty
      rw [← size, empty, List.length_nil, Nat.cast_zero] at least
      omega
    · dsimp only
      rw [value]
      exact (reaches positive).value (counts.worth_eq.symm ▸ enough)
    · intro picked some reached few
      rw [size]
      exact limited positive picked some reached few

theorem getIdealSpends_of_neg
    (negative : nValueTarget < 0) :
    (getIdealSpends nValueTarget listMints).1 = false := by
  have kept : ∀ coins : List CoinDenomination, (∀ coin ∈ coins, 0 < coin.toAmount) →
      coins.foldl (fun state coin => idealRound coin listMints state) ⟨.zero, nValueTarget⟩ =
        ⟨.zero, nValueTarget⟩ := by
    intro coins positive
    induction coins with
    | nil => rfl
    | cons coin rest ih =>
      rw [List.forall_mem_cons] at positive
      have still : ∀ mints, idealRound coin mints ⟨.zero, nValueTarget⟩ =
          ⟨.zero, nValueTarget⟩ := by
        intro mints
        induction mints with
        | nil => rfl
        | cons mint mints skipped =>
          rw [idealRound]
          by_cases used : mint.isUsed = true
          · rw [if_pos used, skipped]
          · have short : ¬coin.toAmount ≤ nValueTarget := by omega
            simp [if_neg used, short, if_pos (not_le.mp short)]
      rw [List.foldl_cons, still, ih positive.2]
  rw [getIdealSpends, kept _ divisible_denominations.positive]
  exact beq_false_of_ne negative.ne

/-- Whatever the target, the limit and the preference, `SelectMintsFromList` comes to an end; the
mints that it selects are unused ones of the list, each at most once, with their value and the
number of coins in change, and for a positive target they reach it if that is possible, and within
the limit if that is possible. -/
theorem selectMintsFromList_selects
    (nValueTarget nSelectedValue nMaxNumberOfSpends : Int)
    (fMinimizeChange : Bool)
    (listMints : List DenominatedMint)
    (mapOfDenomsHeld : DenomMap)
    (consistent : mapOfDenomsHeld.Counts listMints) :
    Yields (selectMintsFromList nValueTarget nSelectedValue nMaxNumberOfSpends fMinimizeChange
        listMints mapOfDenomsHeld) fun selection =>
      (selection.vSelectedMints ≠ [] → selection.Sound listMints nValueTarget ∧
          (listMints.Nodup → selection.vSelectedMints.Nodup)) ∧
        (0 < nValueTarget → selection.Reaches listMints nValueTarget nMaxNumberOfSpends) := by
  have selects : Yields (selectMintsFromList nValueTarget nSelectedValue nMaxNumberOfSpends
      fMinimizeChange listMints mapOfDenomsHeld) fun selection =>
        (selection.vSelectedMints ≠ [] → selection.Sound listMints nValueTarget) ∧
          (0 < nValueTarget →
            selection.Reaches listMints nValueTarget nMaxNumberOfSpends) := by
    unfold selectMintsFromList
    cases meets : (getIdealSpends nValueTarget listMints).1 with
    | false =>
      simp only [meets, Bool.false_eq_true, if_false]
      exact yields_selectWithChange consistent
    | true =>
      simp only [meets, if_true]
      have notBelow : 0 ≤ nValueTarget := by
        by_contra negative
        rw [getIdealSpends_of_neg (not_le.mp negative)] at meets
        cases meets
      obtain ⟨within, made⟩ := getIdealSpends_sound notBelow meets
      refine (yields_getSpends within).bind fun spends selected => ?_
      obtain ⟨unused, amount, value, size⟩ := selected
      split_ifs with few
      · obtain ⟨mapChange, ends, none⟩ := ends_getChange (spends.2 - nValueTarget)
        have noChange := none (by omega)
        refine yields_some ⟨fun _ => ⟨unused, value.trans amount.symm, mapChange, ends,
          noChange.symm⟩, fun positive => ⟨fun _ => ⟨?_, ?_⟩, ?_⟩⟩
        · rintro empty
          dsimp only at empty
          have zero : amountOf [] = 0 := rfl
          rw [empty, zero, made] at amount
          omega
        · dsimp only
          omega
        · intro picked some reached limit
          have bounded : nMaxNumberOfSpends % 2 ^ 64 ≤ nMaxNumberOfSpends := by omega
          exact few.trans bounded
      · exact yields_selectWithChange consistent
  refine selects.mono fun selection outcome => ⟨fun some => ⟨outcome.1 some, fun nodup => ?_⟩,
    outcome.2⟩
  obtain ⟨order, same, taken⟩ := (outcome.1 some).unused
  exact same.nodup_iff.mp ((nodup.filter _).sublist taken)

theorem counts_smallestMint :
    (DenomMap.zero.increment zqOne).Counts [smallestMint] := by
  unfold DenomMap.Counts
  decide

theorem selectMintsFromList_selects_smallest :
    Yields (selectMintsFromList (20 * ColossusCoin.coin) 0 1 false [smallestMint]
        (DenomMap.zero.increment zqOne)) fun selection =>
      (selection.vSelectedMints ≠ [] → selection.Sound [smallestMint] (20 * ColossusCoin.coin) ∧
          ([smallestMint].Nodup → selection.vSelectedMints.Nodup)) ∧
        (0 < 20 * ColossusCoin.coin → selection.Reaches [smallestMint] (20 * ColossusCoin.coin) 1) :=
  selectMintsFromList_selects (20 * ColossusCoin.coin) 0 1 false [smallestMint]
    (DenomMap.zero.increment zqOne) counts_smallestMint

/-- For nothing no mint is selected, though the mints that are held reach it. -/
theorem selectMintsFromList_zero_empty :
    ¬∀ (nValueTarget nSelectedValue nMaxNumberOfSpends : Int) (fMinimizeChange : Bool)
        (listMints : List DenominatedMint) (mapOfDenomsHeld : DenomMap),
      mapOfDenomsHeld.Counts listMints → nValueTarget ≤ amountOf (unusedMints listMints) →
        Yields (selectMintsFromList nValueTarget nSelectedValue nMaxNumberOfSpends fMinimizeChange
          listMints mapOfDenomsHeld) fun selection =>
            selection.vSelectedMints ≠ [] ∧ nValueTarget ≤ selection.nSelectedValue := by
  intro always
  obtain ⟨selection, ends, some, -⟩ := always 0 0 1 false [smallestMint]
    (DenomMap.zero.increment zqOne) counts_smallestMint (by decide)
  have empty : Ends (selectMintsFromList 0 0 1 false [smallestMint]
      (DenomMap.zero.increment zqOne)) ⟨[], 0, 0, 0⟩ := by
    refine ends_of_succ fun less => ?_
    rfl
  rw [ends.unique empty] at some
  exact some rfl

end ColossusCoin
