import ColossusCoin.Library.GreedyFill
import ColossusCoin.Primitives.Transaction
import Mathlib.Algebra.Order.BigOperators.Group.List

/-!
# Coin selection

`SelectCoinsMinConf` looks for coins of the wallet that cover a target: first without the
denominated ones, then with them, by a single larger coin or by a random search for a subset of
the lower ones.  Amounts are exact.
-/

namespace ColossusCoin

open GreedyFill

/-- An output that `AvailableCoins` offers, with its value and whether its transaction is from the
wallet itself. -/
structure COutput where
  tx : Uint256
  i : Nat
  nValue : Int
  nDepth : Int
  fromMe : Bool
  fSpendable : Bool
  deriving DecidableEq

namespace CoinSelection

/-- What tells outputs apart. -/
def point (output : COutput) : Uint256 × Nat :=
  (output.tx, output.i)

def total (outputs : List COutput) : Int :=
  (outputs.map COutput.nValue).sum

/-- What the selection returns by reference. -/
structure Selected where
  setCoinsRet : List COutput
  nValueRet : Int
  deriving DecidableEq

/-- A coin is put into the set, and counted. -/
def Selected.insert (selected : Selected) (output : COutput) : Selected where
  setCoinsRet :=
    if point output ∈ selected.setCoinsRet.map point then selected.setCoinsRet
    else selected.setCoinsRet ++ [output]
  nValueRet := selected.nValueRet + output.nValue

/-- The coins are put into an empty set one after the other. -/
def insertAll (outputs : List COutput) : Selected :=
  outputs.foldl Selected.insert ⟨[], 0⟩

def isDenominatedAmount (denominations : List Int) (nInputAmount : Int) : Bool :=
  denominations.any (nInputAmount == ·)

def lessThenDenom (denominations : List Int) (out1 out2 : COutput) : Bool :=
  !isDenominatedAmount denominations out1.nValue && isDenominatedAmount denominations out2.nValue

/-- `CompareValueOnly`, for the order from the back. -/
def largerValue (out1 out2 : COutput) : Bool :=
  out2.nValue < out1.nValue

/-- The random choices, and the orders in which the two sorts leave coins that they do not tell
apart.  A random bit is asked for by a search, in a repetition, for a position. -/
structure Chance (denominations : List Int) where
  randomShuffle : List COutput → List COutput
  randomShuffle_perm : ∀ vCoins, (randomShuffle vCoins).Perm vCoins
  sortDenoms : Sorting (lessThenDenom denominations)
  sortValues : Sorting largerValue
  insecureRand : Nat → Nat → Nat → Bool

/-- The best subset so far; a flag stands beside the coin it is about. -/
structure BestSubset where
  nBest : Int
  vfBest : List (COutput × Bool)

/-- The variables of a repetition. -/
structure Repetition extends BestSubset where
  nTotal : Int
  vfIncluded : List (COutput × Bool)
  fReachedTarget : Bool

/-- A pass over the coins, of which the first ones have been visited. -/
def subsetPass (nTargetValue : Int) (take : Nat → Bool → Bool) :
    List (COutput × Bool) → List (COutput × Bool) → Repetition → Repetition
  | visited, [], state => { state with vfIncluded := visited }
  | visited, (output, included) :: rest, state =>
    if take visited.length included then
      let nTotal := state.nTotal + output.nValue
      if nTargetValue ≤ nTotal then
        -- The coin that reaches the target is taken out again.
        subsetPass nTargetValue take (visited ++ [(output, false)]) rest { state with
          fReachedTarget := true
          nBest := if nTotal < state.nBest then nTotal else state.nBest
          vfBest := if nTotal < state.nBest then visited ++ (output, true) :: rest
            else state.vfBest }
      else
        subsetPass nTargetValue take (visited ++ [(output, true)]) rest
          { state with nTotal := nTotal }
    else subsetPass nTargetValue take (visited ++ [(output, included)]) rest state

/-- A repetition of `ApproximateBestSubset`. -/
def subsetRepetition
    (vValue : List COutput)
    (nTargetValue : Int)
    (rand : Nat → Bool)
    (best : BestSubset) : BestSubset :=
  let vfIncluded := vValue.map fun output => (output, false)
  let first := subsetPass nTargetValue (fun i _ => rand i) [] vfIncluded
    { best with nTotal := 0, vfIncluded := vfIncluded, fReachedTarget := false }
  if first.fReachedTarget then first.toBestSubset
  else
    (subsetPass nTargetValue (fun _ included => !included) [] first.vfIncluded first).toBestSubset

/-- The repetitions that are left. -/
def subsetLoop (vValue : List COutput) (nTargetValue : Int) (rand : Nat → Nat → Bool) :
    Nat → BestSubset → BestSubset
  | 0, best => best
  | left + 1, best =>
    if best.nBest = nTargetValue then best
    else subsetLoop vValue nTargetValue rand left
      (subsetRepetition vValue nTargetValue (rand left) best)

def approximateBestSubset
    (vValue : List COutput)
    (nTotalLower nTargetValue : Int)
    (rand : Nat → Nat → Bool) : BestSubset :=
  subsetLoop vValue nTargetValue rand 1000
    ⟨nTotalLower, vValue.map fun output => (output, true)⟩

/-- What the loop over the coins keeps. -/
structure CoinScan where
  vValue : List COutput
  nTotalLower : Int
  coinLowestLarger : Option COutput

/-- `coinLowestLarger.first`. -/
def lowestLarger (coinLowestLarger : Option COutput) : Int :=
  coinLowestLarger.elim int64Max COutput.nValue

/-- Whether a coin is spendable and has enough confirmations. -/
def eligible (nConfMine nConfTheirs : Int) (output : COutput) : Bool :=
  output.fSpendable && !decide (output.nDepth < if output.fromMe then nConfMine else nConfTheirs)

/-- The loop over the coins; a coin of the target's value ends it. -/
def scanCoins (nTargetValue : Int) (wanted : COutput → Bool) :
    List COutput → CoinScan → Except COutput CoinScan
  | [], scan => .ok scan
  | output :: vCoins, scan =>
    if !wanted output then scanCoins nTargetValue wanted vCoins scan
    else if output.nValue = nTargetValue then .error output
    else if output.nValue < nTargetValue + coin then
      scanCoins nTargetValue wanted vCoins { scan with
        vValue := scan.vValue ++ [output]
        nTotalLower := scan.nTotalLower + output.nValue }
    else if output.nValue < lowestLarger scan.coinLowestLarger then
      scanCoins nTargetValue wanted vCoins { scan with coinLowestLarger := some output }
    else scanCoins nTargetValue wanted vCoins scan

variable {denominations : List Int}

/-- The end of the selection, where the lower coins are more than is needed. -/
def solveSubset (chance : Chance denominations) (nTargetValue : Int) (scan : CoinScan) :
    Selected :=
  let vValue := chance.sortValues.sort scan.vValue
  let first := approximateBestSubset vValue scan.nTotalLower nTargetValue (chance.insecureRand 0)
  let best :=
    if first.nBest ≠ nTargetValue ∧ nTargetValue + coin ≤ scan.nTotalLower then
      approximateBestSubset vValue scan.nTotalLower (nTargetValue + coin) (chance.insecureRand 1)
    else first
  let subset := insertAll ((best.vfBest.filter Prod.snd).map Prod.fst)
  match scan.coinLowestLarger with
  | none => subset
  | some larger =>
    if (best.nBest ≠ nTargetValue ∧ best.nBest < nTargetValue + coin) ∨
        larger.nValue ≤ best.nBest then
      insertAll [larger]
    else subset

/-- The passes that are left of the loop over `tryDenom`, over the coins in their order. -/
def tryDenoms
    (chance : Chance denominations)
    (nTargetValue : Int)
    (eligible : COutput → Bool)
    (vCoins : List COutput) : List Nat → Option COutput → Option Selected
  | [], _ => none
  | tryDenom :: later, coinLowestLarger =>
    match scanCoins nTargetValue
        (fun output => eligible output &&
          !(tryDenom == 0 && isDenominatedAmount denominations output.nValue))
        vCoins ⟨[], 0, coinLowestLarger⟩ with
    | .error exact => some (insertAll [exact])
    | .ok scan =>
      if scan.nTotalLower = nTargetValue then some (insertAll scan.vValue)
      else if scan.nTotalLower < nTargetValue then
        match scan.coinLowestLarger with
        | none => tryDenoms chance nTargetValue eligible vCoins later none
        | some larger => some (insertAll [larger])
      else some (solveSubset chance nTargetValue scan)

/-- `SelectCoinsMinConf`; no result where it returns false. -/
def selectCoinsMinConf
    (chance : Chance denominations)
    (nTargetValue nConfMine nConfTheirs : Int)
    (vCoins : List COutput) : Option Selected :=
  tryDenoms chance nTargetValue (eligible nConfMine nConfTheirs)
    (chance.sortDenoms.sort (chance.randomShuffle vCoins)) [0, 1] none

variable {vCoins outputs chosen : List COutput} {nTargetValue nConfMine nConfTheirs : Int}
variable {scan : CoinScan} {selected : Selected}

@[simp] theorem total_cons (output : COutput) (outputs : List COutput) :
    total (output :: outputs) = output.nValue + total outputs :=
  rfl

@[simp] theorem total_append (first second : List COutput) :
    total (first ++ second) = total first + total second := by
  rw [total, List.map_append, List.sum_append]
  rfl

theorem foldl_insert
    (apart : ((selected.setCoinsRet ++ outputs).map point).Nodup) :
    outputs.foldl Selected.insert selected =
      ⟨selected.setCoinsRet ++ outputs, selected.nValueRet + total outputs⟩ := by
  induction outputs generalizing selected with
  | nil => simp [total]
  | cons output outputs ih =>
    have fresh : point output ∉ selected.setCoinsRet.map point := by
      rw [List.map_append, List.map_cons, List.nodup_middle, List.nodup_cons] at apart
      exact fun member => apart.1 (List.mem_append_left _ member)
    have inserted : selected.insert output =
        ⟨selected.setCoinsRet ++ [output], selected.nValueRet + output.nValue⟩ := by
      rw [Selected.insert, if_neg fresh]
    rw [List.foldl_cons, inserted, ih (by simpa using apart)]
    simp [add_assoc]

/-- Different coins of a list that reach a target. -/
structure Covers (outputs : List COutput) (nTargetValue : Int) (selected : Selected) : Prop where
  apart : (selected.setCoinsRet.map point).Nodup
  among : selected.setCoinsRet ⊆ outputs
  value : selected.nValueRet = total selected.setCoinsRet
  reaches : nTargetValue ≤ selected.nValueRet

theorem Covers.of_subperm
    (apart : (outputs.map point).Nodup)
    (part : chosen.Subperm outputs)
    (reaches : nTargetValue ≤ total chosen) :
    Covers outputs nTargetValue (insertAll chosen) := by
  have apartChosen : (chosen.map point).Nodup := by
    obtain ⟨arranged, same, sub⟩ := part
    exact (same.map point).nodup_iff.mp (apart.sublist (sub.map point))
  have inserted : insertAll chosen = ⟨chosen, total chosen⟩ := by
    rw [insertAll, foldl_insert (by simpa using apartChosen)]
    simp
  rw [inserted]
  exact ⟨apartChosen, part.subset, rfl, reaches⟩

theorem Covers.mono
    (covers : Covers chosen nTargetValue selected)
    (part : chosen ⊆ outputs) :
    Covers outputs nTargetValue selected :=
  ⟨covers.apart, fun _ member => part (covers.among member), covers.value, covers.reaches⟩

theorem Covers.le_total
    (covers : Covers outputs nTargetValue selected)
    (nonneg : ∀ output ∈ outputs, 0 ≤ output.nValue) :
    nTargetValue ≤ total outputs := by
  have part : selected.setCoinsRet.Subperm outputs :=
    List.subperm_of_subset covers.apart.of_map covers.among
  obtain ⟨arranged, same, sub⟩ := part
  have atMost : total arranged ≤ total outputs := by
    apply (sub.map COutput.nValue).sum_le_sum
    intro value member
    obtain ⟨output, present, rfl⟩ := List.mem_map.mp member
    exact nonneg output present
  have equal : total arranged = total selected.setCoinsRet := (same.map COutput.nValue).sum_eq
  have reaches := covers.reaches
  rw [covers.value] at reaches
  omega

/-- The coins whose flag is set. -/
def marked (flags : List (COutput × Bool)) : List COutput :=
  (flags.filter Prod.snd).map Prod.fst

@[simp] theorem marked_append (first second : List (COutput × Bool)) :
    marked (first ++ second) = marked first ++ marked second := by
  rw [marked, List.filter_append, List.map_append]
  rfl

@[simp] theorem marked_cons_true (output : COutput) (rest : List (COutput × Bool)) :
    marked ((output, true) :: rest) = output :: marked rest :=
  rfl

@[simp] theorem marked_cons_false (output : COutput) (rest : List (COutput × Bool)) :
    marked ((output, false) :: rest) = marked rest :=
  rfl

theorem marked_map_true (vValue : List COutput) :
    marked (vValue.map fun output => (output, true)) = vValue := by
  induction vValue with
  | nil => rfl
  | cons output vValue ih =>
    rw [List.map_cons, marked_cons_true, ih]

theorem marked_map_false (vValue : List COutput) :
    marked (vValue.map fun output => (output, false)) = [] := by
  induction vValue with
  | nil => rfl
  | cons output vValue ih =>
    rw [List.map_cons, marked_cons_false, ih]

theorem marked_sublist (flags : List (COutput × Bool)) :
    (marked flags).Sublist (flags.map Prod.fst) :=
  List.filter_sublist.map Prod.fst

/-- Flags for the coins, whose marked coins come to a value. -/
structure Counted (vValue : List COutput) (flags : List (COutput × Bool)) (value : Int) : Prop where
  coins : flags.map Prod.fst = vValue
  sum : total (marked flags) = value

/-- The best subset reaches the target. -/
structure BestSubset.Reaches (vValue : List COutput) (nTargetValue : Int)
    (best : BestSubset) : Prop where
  counted : Counted vValue best.vfBest best.nBest
  reaches : nTargetValue ≤ best.nBest

variable {vValue : List COutput}

theorem counted_map_fst :
    (vValue.map fun output => (output, flag)).map Prod.fst = vValue := by
  rw [List.map_map]
  exact List.map_id vValue

theorem reaches_subsetPass
    (take : Nat → Bool → Bool)
    {visited rest : List (COutput × Bool)} {state : Repetition}
    (leftOut : ∀ i, ∀ entry ∈ rest, take i entry.2 = true → entry.2 = false)
    (counted : Counted vValue (visited ++ rest) state.nTotal)
    (best : state.toBestSubset.Reaches vValue nTargetValue) :
    (subsetPass nTargetValue take visited rest state).toBestSubset.Reaches vValue nTargetValue ∧
      Counted vValue (subsetPass nTargetValue take visited rest state).vfIncluded
        (subsetPass nTargetValue take visited rest state).nTotal := by
  induction rest generalizing visited state with
  | nil => exact ⟨best, by simpa [subsetPass] using counted⟩
  | cons entry rest ih =>
    obtain ⟨output, included⟩ := entry
    have later : ∀ i, ∀ entry ∈ rest, take i entry.2 = true → entry.2 = false :=
      fun i entry member => leftOut i entry (List.mem_cons_of_mem _ member)
    have coins := counted.coins
    have sum := counted.sum
    rw [subsetPass]
    by_cases taken : take visited.length included = true
    · rw [if_pos taken]
      have out : included = false := leftOut _ _ (List.mem_cons_self ..) taken
      subst out
      simp only [marked_append, marked_cons_false, total_append] at sum
      by_cases reached : nTargetValue ≤ state.nTotal + output.nValue
      · simp only [if_pos reached]
        refine ih later ⟨by simpa using coins, by simpa using sum⟩ ?_
        by_cases better : state.nTotal + output.nValue < state.nBest
        · simp only [if_pos better]
          refine ⟨⟨by simpa using coins, ?_⟩, reached⟩
          show total (marked (visited ++ (output, true) :: rest)) = state.nTotal + output.nValue
          rw [marked_append, marked_cons_true, total_append, total_cons]
          omega
        · simp only [if_neg better]
          exact best
      · simp only [if_neg reached]
        refine ih later ⟨by simpa using coins, ?_⟩ best
        show total (marked ((visited ++ [(output, true)]) ++ rest)) = state.nTotal + output.nValue
        rw [List.append_assoc, List.singleton_append, marked_append, marked_cons_true,
          total_append, total_cons]
        omega
    · rw [if_neg taken]
      exact ih later (by simpa using counted) best

theorem reaches_subsetRepetition
    {best : BestSubset}
    (rand : Nat → Bool)
    (reaches : best.Reaches vValue nTargetValue) :
    (subsetRepetition vValue nTargetValue rand best).Reaches vValue nTargetValue := by
  have start : Counted vValue ([] ++ vValue.map fun output => (output, false)) 0 :=
    ⟨counted_map_fst, by rw [List.nil_append, marked_map_false]; rfl⟩
  have leftOut : ∀ i, ∀ entry ∈ vValue.map fun output => (output, false),
      (fun (i : Nat) (_ : Bool) => rand i) i entry.2 = true → entry.2 = false := by
    intro i entry member _
    obtain ⟨output, -, rfl⟩ := List.mem_map.mp member
    rfl
  have first := @reaches_subsetPass nTargetValue vValue (fun i _ => rand i) _ _
    { best with
      nTotal := 0, vfIncluded := vValue.map fun output => (output, false),
      fReachedTarget := false }
    leftOut start reaches
  rw [subsetRepetition]
  split_ifs
  · exact first.1
  · exact (reaches_subsetPass _ (fun _ _ _ out => by simpa using out) first.2 first.1).1

theorem reaches_approximateBestSubset
    (rand : Nat → Nat → Bool)
    (lower : total vValue = nTotalLower)
    (enough : nTargetValue ≤ nTotalLower) :
    (approximateBestSubset vValue nTotalLower nTargetValue rand).Reaches vValue nTargetValue := by
  have loop : ∀ (left : Nat) (best : BestSubset), best.Reaches vValue nTargetValue →
      (subsetLoop vValue nTargetValue rand left best).Reaches vValue nTargetValue := by
    intro left
    induction left with
    | zero => exact fun _ reaches => reaches
    | succ left ih =>
      intro best reaches
      rw [subsetLoop]
      split_ifs
      · exact reaches
      · exact ih _ (reaches_subsetRepetition _ reaches)
  refine loop 1000 _ ⟨⟨counted_map_fst, ?_⟩, enough⟩
  rw [marked_map_true]
  exact lower

/-- What the loop has found among the coins it has visited. -/
structure CoinScan.Found (nTargetValue : Int) (visited : List COutput) (scan : CoinScan) :
    Prop where
  lower : scan.vValue.Sublist visited
  sum : total scan.vValue = scan.nTotalLower
  larger : ∀ output ∈ scan.coinLowestLarger, output ∈ visited ∧ nTargetValue + coin ≤ output.nValue
  complete : scan.coinLowestLarger = none → (∀ output ∈ visited, output.nValue < int64Max) →
    scan.vValue = visited

theorem scanCoins_spec
    (wanted : COutput → Bool)
    (vCoins : List COutput)
    (found : scan.Found nTargetValue visited) :
    (∃ exact, scanCoins nTargetValue wanted vCoins scan = .error exact ∧
      exact ∈ vCoins.filter wanted ∧ exact.nValue = nTargetValue) ∨
    (∃ last, scanCoins nTargetValue wanted vCoins scan = .ok last ∧
      last.Found nTargetValue (visited ++ vCoins.filter wanted)) := by
  induction vCoins generalizing scan visited with
  | nil => exact .inr ⟨scan, rfl, by simpa using found⟩
  | cons output vCoins ih =>
    rw [scanCoins]
    by_cases skipped : wanted output = false
    · simp only [skipped, Bool.not_false, if_true, List.filter_cons, Bool.false_eq_true, if_false]
      exact ih found
    have kept : wanted output = true := by simpa using skipped
    simp only [kept, Bool.not_true, Bool.false_eq_true, if_false, List.filter_cons, if_true]
    -- After a step the rest is searched, with one more coin visited.
    have step : ∀ {next : CoinScan}, next.Found nTargetValue (visited ++ [output]) →
        (∃ exact, scanCoins nTargetValue wanted vCoins next = .error exact ∧
          exact ∈ output :: vCoins.filter wanted ∧ exact.nValue = nTargetValue) ∨
        (∃ last, scanCoins nTargetValue wanted vCoins next = .ok last ∧
          last.Found nTargetValue (visited ++ output :: vCoins.filter wanted)) := by
      intro next foundNext
      rcases ih foundNext with ⟨exact, stopped, member, value⟩ | ⟨last, ended, all⟩
      · exact .inl ⟨exact, stopped, List.mem_cons_of_mem _ member, value⟩
      · exact .inr ⟨last, ended, by simpa using all⟩
    have old := List.sublist_append_left visited [output]
    by_cases same : output.nValue = nTargetValue
    · rw [if_pos same]
      exact .inl ⟨output, rfl, List.mem_cons_self .., same⟩
    rw [if_neg same]
    by_cases lower : output.nValue < nTargetValue + coin
    · rw [if_pos lower]
      refine step ⟨found.lower.append (List.Sublist.refl _), ?_, ?_, ?_⟩
      · rw [total_append, found.sum]
        simp [total]
      · intro larger present
        exact ⟨old.subset (found.larger larger present).1, (found.larger larger present).2⟩
      · intro none small
        rw [found.complete none fun output member => small output (old.subset member)]
    rw [if_neg lower]
    by_cases nearer : output.nValue < lowestLarger scan.coinLowestLarger
    · rw [if_pos nearer]
      refine step ⟨found.lower.trans old, found.sum, ?_, fun none => by cases none⟩
      rintro larger ⟨⟩
      exact ⟨List.mem_append_right _ (List.mem_singleton_self _), not_lt.mp lower⟩
    · rw [if_neg nearer]
      refine step ⟨found.lower.trans old, found.sum, ?_, ?_⟩
      · intro larger present
        exact ⟨old.subset (found.larger larger present).1, (found.larger larger present).2⟩
      · intro none small
        rw [none] at nearer
        exact absurd (small output (List.mem_append_right _ (List.mem_singleton_self _))) nearer

theorem covers_solveSubset
    (chance : Chance denominations)
    (apart : (outputs.map point).Nodup)
    (found : scan.Found nTargetValue outputs)
    (more : nTargetValue ≤ scan.nTotalLower) :
    Covers outputs nTargetValue (solveSubset chance nTargetValue scan) := by
  have positive : 0 < coin := by decide
  let vValue := chance.sortValues.sort scan.vValue
  have arranged : vValue.Perm scan.vValue := chance.sortValues.perm scan.vValue
  have lower : total vValue = scan.nTotalLower := by
    rw [← found.sum]
    exact (arranged.map COutput.nValue).sum_eq
  -- Whichever search was the last, its subset reaches the target.
  have subset : ∀ {best : BestSubset}, best.Reaches vValue nTargetValue →
      Covers outputs nTargetValue (insertAll ((best.vfBest.filter Prod.snd).map Prod.fst)) := by
    intro best reaches
    refine Covers.of_subperm apart ?_ (reaches.counted.sum.symm ▸ reaches.reaches)
    have part := marked_sublist best.vfBest
    rw [reaches.counted.coins] at part
    exact part.subperm.trans (arranged.subperm.trans found.lower.subperm)
  have larger : ∀ output, scan.coinLowestLarger = some output →
      Covers outputs nTargetValue (insertAll [output]) := by
    intro output present
    obtain ⟨member, value⟩ := found.larger output present
    refine Covers.of_subperm apart (List.singleton_subperm_iff.mpr member) ?_
    simp only [total, List.map_cons, List.map_nil, List.sum_singleton]
    omega
  have finish : ∀ {best : BestSubset}, best.Reaches vValue nTargetValue →
      Covers outputs nTargetValue (match scan.coinLowestLarger with
        | none => insertAll ((best.vfBest.filter Prod.snd).map Prod.fst)
        | some larger =>
          if (best.nBest ≠ nTargetValue ∧ best.nBest < nTargetValue + coin) ∨
              larger.nValue ≤ best.nBest then
            insertAll [larger]
          else insertAll ((best.vfBest.filter Prod.snd).map Prod.fst)) := by
    intro best reaches
    cases present : scan.coinLowestLarger with
    | none => exact subset reaches
    | some output =>
      dsimp only
      split_ifs
      · exact larger output present
      · exact subset reaches
  apply finish
  split_ifs with again
  · have reaches : (approximateBestSubset vValue scan.nTotalLower (nTargetValue + coin)
        (chance.insecureRand 1)).Reaches vValue (nTargetValue + coin) :=
      reaches_approximateBestSubset _ lower again.2
    exact ⟨reaches.counted, le_trans (by omega) reaches.reaches⟩
  · exact reaches_approximateBestSubset (chance.insecureRand 0) lower more

/-- The coins that a pass looks at. -/
def wantedCoins (denominations : List Int) (eligible : COutput → Bool) (tryDenom : Nat)
    (vCoins : List COutput) : List COutput :=
  vCoins.filter fun output => eligible output &&
    !(tryDenom == 0 && isDenominatedAmount denominations output.nValue)

/-- A pass returns coins that cover the target, or all that it looks at are too few. -/
theorem tryDenoms_cons
    (chance : Chance denominations)
    (tryDenom : Nat)
    (later : List Nat)
    {eligible : COutput → Bool}
    (apart : ((vCoins.filter eligible).map point).Nodup)
    (small : ∀ output ∈ vCoins.filter eligible, output.nValue < int64Max) :
    (∃ selected,
      tryDenoms chance nTargetValue eligible vCoins (tryDenom :: later) none = some selected ∧
      Covers (vCoins.filter eligible) nTargetValue selected) ∨
    (tryDenoms chance nTargetValue eligible vCoins (tryDenom :: later) none =
        tryDenoms chance nTargetValue eligible vCoins later none ∧
      total (wantedCoins denominations eligible tryDenom vCoins) < nTargetValue) := by
  have part : (wantedCoins denominations eligible tryDenom vCoins).Sublist
      (vCoins.filter eligible) :=
    List.monotone_filter_right vCoins fun output wanted => by
      simp only [Bool.and_eq_true] at wanted
      exact wanted.1
  have apartWanted := apart.sublist (part.map point)
  have lift : ∀ {selected},
      Covers (wantedCoins denominations eligible tryDenom vCoins) nTargetValue selected →
        Covers (vCoins.filter eligible) nTargetValue selected := fun covers =>
    covers.mono part.subset
  have start : CoinScan.Found nTargetValue [] ⟨[], 0, none⟩ :=
    ⟨List.Sublist.refl _, rfl, fun _ absent => absurd absent (Option.not_mem_none _),
      fun _ _ => rfl⟩
  rw [tryDenoms]
  rcases scanCoins_spec _ vCoins start with
    ⟨exact, stopped, member, value⟩ | ⟨scan, ended, found⟩
  · rw [stopped]
    refine .inl ⟨_, rfl, lift (Covers.of_subperm apartWanted
      (List.singleton_subperm_iff.mpr member) ?_)⟩
    simp [total, value]
  rw [ended]
  rw [List.nil_append] at found
  dsimp only
  by_cases equal : scan.nTotalLower = nTargetValue
  · rw [if_pos equal]
    exact .inl ⟨_, rfl, lift (Covers.of_subperm apartWanted found.lower.subperm
      (by rw [found.sum]; omega))⟩
  rw [if_neg equal]
  by_cases less : scan.nTotalLower < nTargetValue
  · rw [if_pos less]
    cases present : scan.coinLowestLarger with
    | none =>
      refine .inr ⟨rfl, ?_⟩
      have all := found.complete present fun output member => small output (part.subset member)
      show total (vCoins.filter _) < nTargetValue
      rw [← all, found.sum]
      exact less
    | some output =>
      obtain ⟨member, value⟩ := found.larger output present
      have positive : 0 < coin := by decide
      refine .inl ⟨_, rfl, lift (Covers.of_subperm apartWanted
        (List.singleton_subperm_iff.mpr member) ?_)⟩
      simp only [total, List.map_cons, List.map_nil, List.sum_singleton]
      omega
  · rw [if_neg less]
    exact .inl ⟨_, rfl, lift (covers_solveSubset chance apartWanted found (by omega))⟩

theorem selectCoinsMinConf_cases
    (chance : Chance denominations)
    (nTargetValue nConfMine nConfTheirs : Int)
    (apart : (vCoins.map point).Nodup)
    (small : ∀ output ∈ vCoins, output.nValue < int64Max) :
    (∃ selected,
      selectCoinsMinConf chance nTargetValue nConfMine nConfTheirs vCoins = some selected ∧
      Covers (vCoins.filter (eligible nConfMine nConfTheirs)) nTargetValue selected) ∨
    (selectCoinsMinConf chance nTargetValue nConfMine nConfTheirs vCoins = none ∧
      total (vCoins.filter (eligible nConfMine nConfTheirs)) < nTargetValue) := by
  let arranged := chance.sortDenoms.sort (chance.randomShuffle vCoins)
  have perm : arranged.Perm vCoins :=
    (chance.sortDenoms.perm _).trans (chance.randomShuffle_perm vCoins)
  have permEligible := perm.filter (eligible nConfMine nConfTheirs)
  have sameTotal := (permEligible.map COutput.nValue).sum_eq
  have apartEligible : ((arranged.filter (eligible nConfMine nConfTheirs)).map point).Nodup :=
    (((perm.map point).nodup_iff).mpr apart).sublist (List.filter_sublist.map point)
  have smallEligible : ∀ output ∈ arranged.filter (eligible nConfMine nConfTheirs),
      output.nValue < int64Max := fun output member =>
    small output (perm.subset (List.mem_of_mem_filter member))
  rw [selectCoinsMinConf]
  rcases tryDenoms_cons chance 0 [1] apartEligible smallEligible with
    ⟨selected, returned, covers⟩ | ⟨first, -⟩
  · exact .inl ⟨selected, returned, covers.mono permEligible.subset⟩
  rcases tryDenoms_cons chance 1 [] apartEligible smallEligible with
    ⟨selected, returned, covers⟩ | ⟨second, less⟩
  · exact .inl ⟨selected, first.trans returned, covers.mono permEligible.subset⟩
  · have all : wantedCoins denominations (eligible nConfMine nConfTheirs) 1 arranged =
        arranged.filter (eligible nConfMine nConfTheirs) :=
      List.filter_congr fun output _ => Bool.and_true _
    rw [all, total, sameTotal] at less
    exact .inr ⟨first.trans second, less⟩

/-- `SelectCoins`, for coins of all types. -/
def selectCoins
    (chances : Nat → Chance denominations)
    (hasSelected bSpendZeroConfChange : Bool)
    (vCoins : List COutput)
    (nTargetValue : Int) : Option Selected :=
  if hasSelected then
    let selected := insertAll (vCoins.filter COutput.fSpendable)
    if nTargetValue ≤ selected.nValueRet then some selected else none
  else
    selectCoinsMinConf (chances 0) nTargetValue 1 6 vCoins <|>
      selectCoinsMinConf (chances 1) nTargetValue 1 1 vCoins <|>
        if bSpendZeroConfChange then selectCoinsMinConf (chances 2) nTargetValue 0 1 vCoins
        else none

theorem covers_selectCoins
    {chances : Nat → Chance denominations}
    (apart : (vCoins.map point).Nodup)
    (small : ∀ output ∈ vCoins, output.nValue < int64Max)
    (returned : selectCoins chances hasSelected bSpendZeroConfChange vCoins nTargetValue =
      some selected) :
    Covers vCoins nTargetValue selected := by
  have minConf : ∀ {chance : Chance denominations} {nConfMine nConfTheirs : Int},
      selectCoinsMinConf chance nTargetValue nConfMine nConfTheirs vCoins = some selected →
        Covers vCoins nTargetValue selected := by
    intro chance nConfMine nConfTheirs found
    rcases selectCoinsMinConf_cases chance nTargetValue nConfMine nConfTheirs apart small with
      ⟨other, same, covers⟩ | ⟨fails, -⟩
    · rw [found] at same
      cases same
      exact covers.mono (List.filter_subset_self _)
    · rw [found] at fails
      cases fails
  rw [selectCoins] at returned
  cases hasSelected with
  | true =>
    have apartSpendable : ((vCoins.filter COutput.fSpendable).map point).Nodup :=
      apart.sublist (List.filter_sublist.map point)
    simp only [if_true] at returned
    split_ifs at returned with enough
    cases returned
    have inserted : insertAll (vCoins.filter COutput.fSpendable) =
        ⟨vCoins.filter COutput.fSpendable, total (vCoins.filter COutput.fSpendable)⟩ := by
      rw [insertAll, foldl_insert (by simpa using apartSpendable)]
      simp
    rw [inserted] at enough
    exact Covers.of_subperm apart List.filter_sublist.subperm enough
  | false =>
    simp only [Bool.false_eq_true, if_false, Option.orElse_eq_some] at returned
    rcases returned with first | ⟨-, second | ⟨-, third⟩⟩
    · exact minConf first
    · exact minConf second
    · split_ifs at third
      exact minConf third

theorem lessThenDenom_order (denominations : List Int) :
    StrictWeakOrder (lessThenDenom denominations) := by
  refine StrictWeakOrder.of_key fun x y => (?_ : _ ↔
    (!isDenominatedAmount denominations y.nValue) < !isDenominatedAmount denominations x.nValue)
  rw [lessThenDenom, Bool.lt_iff]
  simp [and_comm]

theorem largerValue_order : StrictWeakOrder largerValue :=
  StrictWeakOrder.of_key fun x y =>
    (decide_eq_true_iff : _ ↔ y.nValue < x.nValue)

/-- Nothing is shuffled, and the sorts are stable. -/
def Chance.stable (denominations : List Int) (insecureRand : Nat → Nat → Nat → Bool) :
    Chance denominations where
  randomShuffle := id
  randomShuffle_perm := List.Perm.refl
  sortDenoms := (lessThenDenom_order denominations).insertionSort
  sortValues := largerValue_order.insertionSort
  insecureRand := insecureRand

end CoinSelection
end ColossusCoin
