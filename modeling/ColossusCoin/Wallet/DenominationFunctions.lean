import ColossusCoin.Library.CoinSystems
import ColossusCoin.Wallet.Zerocoins

/-!
# Zerocoin denominations for a spend

How many coins of each denomination make up an amount, its change, or a spend of mints that the
wallet holds.  Loops that follow counts take fuel.  A map from denominations has all of them as
its keys, and amounts do not overflow.
-/

namespace ColossusCoin

open CoinDenomination Loops

/-- `CZerocoinMint`, with its denomination. -/
structure DenominatedMint extends CZerocoinMint where
  denomination : CoinDenomination
  deriving DecidableEq, Repr

namespace DenominatedMint

/-- `GetDenominationAsAmount`. -/
def denominationAsAmount (mint : DenominatedMint) : Int :=
  mint.denomination.toInt * coin

end DenominatedMint

/-- `std::map<CoinDenomination, CAmount>`. -/
abbrev DenomMap := CoinDenomination → Int

namespace DenomMap

/-- The map with zero under each denomination. -/
def zero : DenomMap := fun _ => 0

/-- `at(denom)++`. -/
def increment (counts : DenomMap) (denom : CoinDenomination) : DenomMap :=
  Function.update counts denom (counts denom + 1)

/-- `at(denom)--`. -/
def decrement (counts : DenomMap) (denom : CoinDenomination) : DenomMap :=
  Function.update counts denom (counts denom - 1)

variable (counts : DenomMap)

@[simp] theorem increment_self : counts.increment denom denom = counts denom + 1 :=
  Function.update_self _ _ _

theorem increment_of_ne (different : other ≠ denom) :
    counts.increment denom other = counts other :=
  Function.update_of_ne different _ _

@[simp] theorem decrement_self : counts.decrement denom denom = counts denom - 1 :=
  Function.update_self _ _ _

theorem decrement_of_ne (different : other ≠ denom) :
    counts.decrement denom other = counts other :=
  Function.update_of_ne different _ _

end DenomMap

def getNumberOfCoinsUsed (mapChange : DenomMap) : Int :=
  zerocoinDenomList.foldl (fun nChangeCount denom => nChangeCount + mapChange denom) 0

def getMaxDenomHeld (mapCoinsHeld : DenomMap) : CoinDenomination :=
  (zerocoinDenomList.reverse.find? fun coin => mapCoinsHeld coin ≠ 0).getD .zqError

def getNextLowerDenomHeld (thisDenom : CoinDenomination) (mapCoinsHeld : DenomMap) :
    CoinDenomination :=
  (zerocoinDenomList.reverse.find? fun denom =>
    denom.toInt < thisDenom.toInt ∧ mapCoinsHeld denom ≠ 0).getD .zqError

/-- The coins used and the value that remains. -/
structure CoinsUsed where
  mapUsed : DenomMap
  nRemainingValue : Int

/-- One more coin. -/
def CoinsUsed.use (state : CoinsUsed) (coin : CoinDenomination) : CoinsUsed where
  mapUsed := state.mapUsed.increment coin
  nRemainingValue := state.nRemainingValue - coin.toAmount

/-- The condition of the loop in `getSpendCoins`. -/
def canSpend (mapOfDenomsHeld : DenomMap) (coin : CoinDenomination) (state : CoinsUsed) : Bool :=
  coin.toAmount ≤ state.nRemainingValue && state.mapUsed coin < mapOfDenomsHeld coin

/-- The round of `getSpendCoins` for a denomination. -/
def spendRound (mapOfDenomsHeld : DenomMap) (fuel : Nat) (state : CoinsUsed)
    (coin : CoinDenomination) : Option CoinsUsed :=
  doWhile (fun state => if canSpend mapOfDenomsHeld coin state then state.use coin else state)
    (canSpend mapOfDenomsHeld coin) fuel state

def getSpendCoins (nValueTarget : Int) (mapOfDenomsHeld : DenomMap) (fuel : Nat) :
    Option DenomMap := do
  let state ← zerocoinDenomList.reverse.foldlM (spendRound mapOfDenomsHeld fuel)
    ⟨.zero, nValueTarget⟩
  pure state.mapUsed

/-- The condition of the loop in `getChange`. -/
def canReturn (coin : CoinDenomination) (state : CoinsUsed) : Bool :=
  coin.toAmount ≤ state.nRemainingValue

/-- The round of `getChange` for a denomination. -/
def changeRound (fuel : Nat) (state : CoinsUsed) (coin : CoinDenomination) : Option CoinsUsed :=
  doWhile (fun state => if canReturn coin state then state.use coin else state) (canReturn coin)
    fuel state

def getChange (nValueTarget : Int) (fuel : Nat) : Option DenomMap := do
  let state ← zerocoinDenomList.reverse.foldlM (changeRound fuel) ⟨.zero, nValueTarget⟩
  pure state.mapUsed

/-- The inner loop of `getIdealSpends`. -/
def idealRound (coin : CoinDenomination) : List DenominatedMint → CoinsUsed → CoinsUsed
  | [], state => state
  | mint :: listMints, state =>
    if mint.isUsed then idealRound coin listMints state
    else
      let next :=
        if coin.toAmount ≤ state.nRemainingValue ∧ coin = mint.denomination then
          { mapUsed := state.mapUsed.increment coin
            nRemainingValue := state.nRemainingValue - mint.denominationAsAmount : CoinsUsed }
        else state
      if next.nRemainingValue < coin.toAmount then next else idealRound coin listMints next

/-- `getIdealSpends`: whether the mints meet the target exactly, and the coins used. -/
def getIdealSpends (nValueTarget : Int) (listMints : List DenominatedMint) : Bool × DenomMap :=
  let state := zerocoinDenomList.reverse.foldl (fun state coin => idealRound coin listMints state)
    ⟨.zero, nValueTarget⟩
  (state.nRemainingValue == 0, state.mapUsed)

/-- The mints selected, the coins still to be used and the value spent. -/
structure MintsSelected where
  vSelectedMints : List DenominatedMint
  mapOfDenomsUsed : DenomMap
  nCoinsSpentValue : Int

/-- The innermost step of `getSpends`. -/
def selectMint (coin : CoinDenomination) (state : MintsSelected) (mint : DenominatedMint) :
    MintsSelected :=
  if mint.isUsed then state
  else if coin = mint.denomination ∧ state.mapOfDenomsUsed coin ≠ 0 then
    { vSelectedMints := state.vSelectedMints ++ [mint]
      mapOfDenomsUsed := state.mapOfDenomsUsed.decrement coin
      nCoinsSpentValue := state.nCoinsSpentValue + coin.toAmount }
  else state

/-- The round of `getSpends` for a denomination. -/
def selectRound (listMints : List DenominatedMint) (fuel : Nat) (state : MintsSelected)
    (coin : CoinDenomination) : Option MintsSelected :=
  doWhile (fun state => listMints.foldl (selectMint coin) state)
    (fun state => state.mapOfDenomsUsed coin ≠ 0) fuel state

/-- `getSpends`: the mints and what they are worth. -/
def getSpends (listMints : List DenominatedMint) (mapOfDenomsUsed : DenomMap) (fuel : Nat) :
    Option (List DenominatedMint × Int) := do
  let state ← zerocoinDenomList.reverse.foldlM (selectRound listMints fuel)
    ⟨[], mapOfDenomsUsed, 0⟩
  pure (state.vSelectedMints, state.nCoinsSpentValue)

/-- The coins used, the value that remains, the value used and the number of coins. -/
structure AmountCovered where
  mapOfDenomsUsed : DenomMap
  nRemainingValue : Int
  amountUsed : Int
  nCoinCount : Int

namespace AmountCovered

/-- No coins for an amount. -/
def start (nValueTarget : Int) : AmountCovered := ⟨.zero, nValueTarget, 0, 0⟩

/-- One more coin. -/
def use (state : AmountCovered) (denom : CoinDenomination) : AmountCovered where
  mapOfDenomsUsed := state.mapOfDenomsUsed.increment denom
  nRemainingValue := state.nRemainingValue - denom.toAmount
  amountUsed := state.amountUsed + denom.toAmount
  nCoinCount := state.nCoinCount + 1

@[simp] theorem use_mapOfDenomsUsed (state : AmountCovered) (denom : CoinDenomination) :
    (state.use denom).mapOfDenomsUsed = state.mapOfDenomsUsed.increment denom := rfl

@[simp] theorem use_nRemainingValue (state : AmountCovered) (denom : CoinDenomination) :
    (state.use denom).nRemainingValue = state.nRemainingValue - denom.toAmount := rfl

end AmountCovered

/-- The condition of the first loop of `minimizeChange`. -/
def canStayBelow (mapOfDenomsHeld : DenomMap) (denom : CoinDenomination)
    (state : AmountCovered) : Bool :=
  denom.toAmount < state.nRemainingValue && state.mapOfDenomsUsed denom < mapOfDenomsHeld denom

/-- A round of the first loop of `minimizeChange`, which stays below the target. -/
def belowRound (nextToMaxDenom : CoinDenomination) (mapOfDenomsHeld : DenomMap) (fuel : Nat)
    (state : AmountCovered) (denom : CoinDenomination) : Option AmountCovered :=
  if denom.toInt ≤ nextToMaxDenom.toInt then
    doWhile
      (fun state => if canStayBelow mapOfDenomsHeld denom state then state.use denom else state)
      (canStayBelow mapOfDenomsHeld denom) fuel state
  else some state

/-- The second loop of `minimizeChange`, from the bottom up. -/
def fillUp (mapOfDenomsHeld : DenomMap) : List CoinDenomination → AmountCovered → AmountCovered
  | [], state => state
  | denom :: rest, state =>
    let next :=
      if state.nRemainingValue < denom.toAmount ∧
          state.mapOfDenomsUsed denom < mapOfDenomsHeld denom then state.use denom
      else state
    if next.nRemainingValue < 0 then next else fillUp mapOfDenomsHeld rest next

/-- Coins used and coins of the change, where they overlap. -/
structure Overlap where
  mapOfDenomsUsed : DenomMap
  mapAltChange : DenomMap
  nCoinCount : Int
  amountUsed : Int

/-- There is a coin of the denomination on both sides. -/
def overlaps (denom : CoinDenomination) (state : Overlap) : Bool :=
  state.mapAltChange denom ≠ 0 && state.mapOfDenomsUsed denom ≠ 0

/-- A coin less on both sides. -/
def Overlap.drop (state : Overlap) (denom : CoinDenomination) : Overlap where
  mapOfDenomsUsed := state.mapOfDenomsUsed.decrement denom
  mapAltChange := state.mapAltChange.decrement denom
  nCoinCount := state.nCoinCount - 1
  amountUsed := state.amountUsed - denom.toAmount

@[simp] theorem Overlap.drop_mapOfDenomsUsed (state : Overlap) (denom : CoinDenomination) :
    (state.drop denom).mapOfDenomsUsed = state.mapOfDenomsUsed.decrement denom := rfl

/-- A round of the third loop of `minimizeChange`, which removes coins that overlap. -/
def overlapRound (fuel : Nat) (state : Overlap) (denom : CoinDenomination) : Option Overlap :=
  doWhile (fun state => if overlaps denom state then state.drop denom else state)
    (overlaps denom) fuel state

/-- What `minimizeChange` and `calculateChange` return: a number of coins in change, the coins used
and whether they call it a success. -/
structure ChangeFound where
  nChangeCount : Int
  mapOfDenomsUsed : DenomMap
  success : Bool

def minimizeChange (nMaxNumberOfSpends nChangeCount : Int) (nextToMaxDenom : CoinDenomination)
    (nValueTarget : Int) (mapOfDenomsHeld savedMapOfDenomsUsed : DenomMap) (fuel : Nat) :
    Option ChangeFound := do
  let below ← zerocoinDenomList.reverse.foldlM (belowRound nextToMaxDenom mapOfDenomsHeld fuel)
    (.start nValueTarget)
  let filled := fillUp mapOfDenomsHeld zerocoinDenomList below
  let mapAltChange ← getChange (filled.amountUsed - nValueTarget) fuel
  let apart ← zerocoinDenomList.foldlM (overlapRound fuel)
    ⟨filled.mapOfDenomsUsed, mapAltChange, filled.nCoinCount, filled.amountUsed⟩
  let mapOfDenomsUsed ← getSpendCoins apart.amountUsed mapOfDenomsHeld fuel
  let nAltChangeAmount := apart.amountUsed - nValueTarget
  let mapAltChange ← getChange nAltChangeAmount fuel
  let altChangeCount := getNumberOfCoinsUsed mapAltChange
  if ¬(nAltChangeAmount ≠ 0 ∧ altChangeCount = 0) ∧ altChangeCount < nChangeCount ∧
      getNumberOfCoinsUsed mapOfDenomsUsed ≤ nMaxNumberOfSpends then
    pure ⟨altChangeCount, mapOfDenomsUsed, true⟩
  else pure ⟨nChangeCount, savedMapOfDenomsUsed, false⟩

/-- The condition of the loop in `calculateChange` that covers the target, after its first round. -/
def coversMore (mapOfDenomsHeld : DenomMap) (denom : CoinDenomination)
    (state : AmountCovered) : Bool :=
  0 < state.nRemainingValue && state.mapOfDenomsUsed denom < mapOfDenomsHeld denom

/-- The loop in `calculateChange` that covers the target with the largest coins first. -/
def coverLoop (mapOfDenomsHeld : DenomMap) (fuel : Nat) :
    List CoinDenomination → AmountCovered → Option AmountCovered
  | [], state => some state
  | denom :: rest, state => do
      let next ← doWhile
        (fun state =>
          if mapOfDenomsHeld denom ≠ 0 ∧ 0 < state.nRemainingValue then state.use denom else state)
        (coversMore mapOfDenomsHeld denom) fuel state
      if next.nRemainingValue < 0 then pure next else coverLoop mapOfDenomsHeld fuel rest next

/-- `calculateChange` where one coin is worth more than the target. -/
def changeOfOneCoin (nMaxNumberOfSpends : Int) (fMinimizeChange : Bool) (nValueTarget : Int)
    (mapOfDenomsHeld : DenomMap) (minDenomOverTarget : CoinDenomination) (fuel : Nat) :
    Option ChangeFound := do
  let mapOfDenomsUsed := DenomMap.zero.increment minDenomOverTarget
  let nChangeAmount := minDenomOverTarget.toAmount - nValueTarget
  let mapChange ← getChange nChangeAmount fuel
  let nChangeCount := getNumberOfCoinsUsed mapChange
  let success : Bool := nChangeAmount < 50 * coin
  if fMinimizeChange then
    let nextToMaxDenom := getNextLowerDenomHeld minDenomOverTarget mapOfDenomsHeld
    let minimized ← minimizeChange nMaxNumberOfSpends nChangeCount nextToMaxDenom nValueTarget
      mapOfDenomsHeld mapOfDenomsUsed fuel
    if minimized.nChangeCount < nChangeCount ∧ minimized.success then
      pure ⟨minimized.nChangeCount, minimized.mapOfDenomsUsed, success⟩
    else pure ⟨nChangeCount, mapOfDenomsUsed, success⟩
  else pure ⟨nChangeCount, mapOfDenomsUsed, success⟩

/-- `calculateChange` where no coin is worth more than the target. -/
def changeOfCoins (nMaxNumberOfSpends : Int) (fMinimizeChange : Bool) (nValueTarget : Int)
    (mapOfDenomsHeld : DenomMap) (fuel : Nat) : Option ChangeFound := do
  let covered ← coverLoop mapOfDenomsHeld fuel zerocoinDenomList.reverse (.start nValueTarget)
  let nChangeAmount := covered.amountUsed - nValueTarget
  let mapChange ← getChange nChangeAmount fuel
  let nMaxChangeCount := getNumberOfCoinsUsed mapChange
  let isFaulty : Bool := nChangeAmount ≠ 0 ∧ nMaxChangeCount = 0
  let minimized ← minimizeChange nMaxNumberOfSpends nMaxChangeCount
    (getMaxDenomHeld mapOfDenomsHeld) nValueTarget mapOfDenomsHeld covered.mapOfDenomsUsed fuel
  let nNumSpends := getNumberOfCoinsUsed minimized.mapOfDenomsUsed
  if !fMinimizeChange ∧ covered.nCoinCount < nNumSpends ∧ !isFaulty then
    pure ⟨nMaxChangeCount, covered.mapOfDenomsUsed, false⟩
  else pure ⟨minimized.nChangeCount, minimized.mapOfDenomsUsed, false⟩

def calculateChange (nMaxNumberOfSpends : Int) (fMinimizeChange : Bool) (nValueTarget : Int)
    (mapOfDenomsHeld : DenomMap) (fuel : Nat) : Option ChangeFound :=
  match zerocoinDenomList.find? fun denom =>
      nValueTarget < denom.toAmount ∧ mapOfDenomsHeld denom ≠ 0 with
  | some minDenomOverTarget =>
    changeOfOneCoin nMaxNumberOfSpends fMinimizeChange nValueTarget mapOfDenomsHeld
      minDenomOverTarget fuel
  | none => changeOfCoins nMaxNumberOfSpends fMinimizeChange nValueTarget mapOfDenomsHeld fuel

/-- What `SelectMintsFromList` returns and leaves in its arguments. -/
structure MintSelection where
  vSelectedMints : List DenominatedMint
  nSelectedValue : Int
  nCoinsReturned : Int
  nNeededSpends : Int

/-- `SelectMintsFromList` after it is clear that the target is not met exactly. -/
def selectWithChange (nValueTarget nSelectedValue nMaxNumberOfSpends : Int)
    (fMinimizeChange : Bool) (listMints : List DenominatedMint) (mapOfDenomsHeld : DenomMap)
    (nNeededSpends : Int) (fuel : Nat) : Option MintSelection := do
  let change ← calculateChange nMaxNumberOfSpends fMinimizeChange nValueTarget mapOfDenomsHeld fuel
  if change.nChangeCount = 0 ∧ !change.success ∧
      getNumberOfCoinsUsed change.mapOfDenomsUsed = 0 then
    pure ⟨[], nSelectedValue, change.nChangeCount, nNeededSpends⟩
  else
    let spends ← getSpends listMints change.mapOfDenomsUsed fuel
    pure ⟨spends.1, spends.2, change.nChangeCount, nNeededSpends⟩

/-- `SelectMintsFromList`, from the value that `nSelectedValue` has before. -/
def selectMintsFromList (nValueTarget nSelectedValue nMaxNumberOfSpends : Int)
    (fMinimizeChange : Bool) (listMints : List DenominatedMint) (mapOfDenomsHeld : DenomMap)
    (fuel : Nat) : Option MintSelection :=
  let ideal := getIdealSpends nValueTarget listMints
  if ideal.1 then do
    let spends ← getSpends listMints ideal.2 fuel
    -- The limit is compared as a `size_t`.
    if (spends.1.length : Int) ≤ nMaxNumberOfSpends % 2 ^ 64 then
      pure ⟨spends.1, spends.2, 0, 0⟩
    else
      selectWithChange nValueTarget spends.2 nMaxNumberOfSpends fMinimizeChange listMints
        mapOfDenomsHeld spends.1.length fuel
  else
    selectWithChange nValueTarget nSelectedValue nMaxNumberOfSpends fMinimizeChange listMints
      mapOfDenomsHeld 0 fuel

end ColossusCoin
