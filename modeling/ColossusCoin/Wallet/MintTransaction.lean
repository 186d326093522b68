import ColossusCoin.Wallet.CoinSelection
import ColossusCoin.Wallet.Zerocoins

/-!
# The transaction that mints zerocoins

`CreateZerocoinMintTransaction` mints the amount in denominations, from the largest that fits, and
returns change of the inputs it selects.
-/

namespace ColossusCoin

open CoinDenomination CoinSelection

namespace CoinDenomination

/-- The loop of `AmountToClosestDenomination`, behind a denomination that was passed. -/
def closestLoop (nConvert : Int) :
    Option CoinDenomination → List CoinDenomination → CoinDenomination × Int
  | previous, [] => (previous.getD zqError, nConvert - (previous.getD zqError).toInt)
  | previous, denomination :: rest =>
    if nConvert = denomination.toInt then (denomination, 0)
    else
      match previous with
      | some d =>
        if nConvert < denomination.toInt then (d, nConvert - d.toInt)
        else closestLoop nConvert (some denomination) rest
      | none => closestLoop nConvert (some denomination) rest

/-- `AmountToClosestDenomination`, with what it leaves in `nRemaining`. -/
def amountToClosestDenomination (nAmount nRemaining : Int) : CoinDenomination × Int :=
  if nAmount < zqOne.toInt * coin then (zqError, nRemaining)
  else closestLoop (nAmount.tdiv coin) none zerocoinDenomList

theorem closestLoop_fits
    (rest : List CoinDenomination)
    (fits : d.toInt ≤ nConvert) :
    (closestLoop nConvert (some d) rest).1 ∈ d :: rest ∧
      (closestLoop nConvert (some d) rest).1.toInt ≤ nConvert := by
  induction rest generalizing d with
  | nil => exact ⟨List.mem_singleton_self d, fits⟩
  | cons denomination rest ih =>
    rw [closestLoop]
    split_ifs with same beyond
    · exact ⟨List.mem_cons_of_mem _ (List.mem_cons_self ..), same.ge⟩
    · exact ⟨List.mem_cons_self .., fits⟩
    · obtain ⟨member, below⟩ := ih (not_lt.mp beyond)
      exact ⟨List.mem_cons_of_mem _ member, below⟩

theorem amountToClosestDenomination_spec (nAmount nRemaining : Int) :
    (nAmount < 50 * coin ∧ (amountToClosestDenomination nAmount nRemaining).1 = zqError) ∨
    (50 * coin ≤ nAmount ∧
      (amountToClosestDenomination nAmount nRemaining).1 ∈ zerocoinDenomList ∧
      (amountToClosestDenomination nAmount nRemaining).1.toAmount ≤ nAmount) := by
  have unit : coin = 100000000 := rfl
  rw [amountToClosestDenomination]
  by_cases small : nAmount < 50 * coin
  · exact .inl ⟨small, by rw [if_pos (show nAmount < zqOne.toInt * coin from small)]⟩
  rw [if_neg (show ¬nAmount < zqOne.toInt * coin from small)]
  refine .inr ⟨not_lt.mp small, ?_⟩
  have whole : nAmount.tdiv coin = nAmount / 100000000 := Int.tdiv_eq_ediv_of_nonneg (by omega)
  have fits : zqOne.toInt ≤ nAmount.tdiv coin := by
    rw [whole]
    show 50 ≤ nAmount / 100000000
    omega
  have closest : (closestLoop (nAmount.tdiv coin) none zerocoinDenomList).1 ∈ zerocoinDenomList ∧
      (closestLoop (nAmount.tdiv coin) none zerocoinDenomList).1.toInt ≤ nAmount.tdiv coin := by
    rw [zerocoinDenomList, closestLoop]
    split_ifs with same
    · exact ⟨List.mem_cons_self .., same.ge⟩
    · exact closestLoop_fits _ fits
  obtain ⟨member, below⟩ := closest
  generalize (closestLoop (nAmount.tdiv coin) none zerocoinDenomList).1 = d at member below ⊢
  refine ⟨member, ?_⟩
  rw [toAmount, unit]
  omega

theorem toAmount_of_listed :
    ∀ d ∈ zerocoinDenomList, d ≠ zqError ∧ 0 < d.toAmount ∧ 50 * coin ∣ d.toAmount := by
  decide

end CoinDenomination

/-- `CFeeRate::GetFee`. -/
def getFee (nSatoshisPerK : Int) (nSize : Nat) : Int :=
  let nFee := (nSatoshisPerK * nSize).tdiv 1000
  if nFee = 0 ∧ 0 < nSatoshisPerK then nSatoshisPerK else nFee

/-- `CTxOut::IsDust`. -/
def CTxOut.isDust (txout : CTxOut) (minRelayTxFee : Int) : Bool :=
  txout.nValue < 3 * getFee minRelayTxFee (8 + CTransaction.scriptSize txout.scriptPubKey + 148)

namespace MintTransaction

/-- What the wallet has and calls; `vCoins` are the coins that `AvailableCoins` offers. -/
structure MintEnv where
  isLocked : Bool
  vCoins : List COutput
  denominations : List Int
  chances : Nat → Chance denominations
  hasSelected : Bool
  bSpendZeroConfChange : Bool
  zerocoinMintFee : Nat
  minRelayTxFee : Int
  /-- A new coin, as it is stored, with the script of its output, after so many coins; none where
  its public part is not valid. -/
  newCoin : Nat → CoinDenomination → Option (CZerocoinMint × CScript)
  getLargestContributor : List COutput → CScript
  signSignature : COutput → Bool

/-- What is built: an input stands for the output that it spends. -/
structure Built where
  vin : List COutput
  vout : List CTxOut
  vMints : List CZerocoinMint
  nFeeRet : Int

variable (env : MintEnv)

/-- The fee for so many outputs, at least for one. -/
def loopFee (outputs : Nat) : Int :=
  (max outputs 1 * env.zerocoinMintFee : Nat)

/-- The value that is not minted yet. -/
def valueRemaining (nValue nMintingValue : Int) (outputs : Nat) (isZCSpendChange : Bool) : Int :=
  nValue - nMintingValue - if isZCSpendChange then loopFee env outputs else 0

variable {env} in
/-- What the next coin takes is there. -/
theorem closest_of_remaining
    (mints : (amountToClosestDenomination
      (valueRemaining env nValue nMintingValue outputs isZCSpendChange) nRemaining).1 ≠ zqError) :
    (amountToClosestDenomination
        (valueRemaining env nValue nMintingValue outputs isZCSpendChange) nRemaining).1 ∈
      zerocoinDenomList ∧
    (amountToClosestDenomination
        (valueRemaining env nValue nMintingValue outputs isZCSpendChange) nRemaining).1.toAmount ≤
      nValue - nMintingValue := by
  rcases amountToClosestDenomination_spec
    (valueRemaining env nValue nMintingValue outputs isZCSpendChange) nRemaining with
    ⟨-, none⟩ | ⟨-, listed, fits⟩
  · exact absurd none mints
  · refine ⟨listed, fits.trans ?_⟩
    rw [valueRemaining]
    have fee : 0 ≤ loopFee env outputs := Int.natCast_nonneg _
    split_ifs <;> omega

theorem remaining_decreases
    (fits : d ∈ zerocoinDenomList ∧ d.toAmount ≤ nValue - nMintingValue) :
    (nValue - (nMintingValue + d.toAmount)).toNat < (nValue - nMintingValue).toNat := by
  have positive := (toAmount_of_listed d fits.1).2.1
  omega

/-- The loop that mints; none where a coin is not valid. -/
def mintLoop (nValue : Int) (isZCSpendChange : Bool) (nMintingValue : Int) (built : Built) :
    Option Built :=
  let nValueRemaining := valueRemaining env nValue nMintingValue built.vout.length isZCSpendChange
  let denomination := (amountToClosestDenomination nValueRemaining nValueRemaining).1
  let nFeeRet := loopFee env built.vout.length
  if isZCSpendChange ∧ nValueRemaining ≤ zqOne.toInt * coin then
    some { built with nFeeRet := nFeeRet }
  else if _ : denomination = zqError then some { built with nFeeRet := nFeeRet }
  else
    match env.newCoin built.vout.length denomination with
    | none => none
    | some (mint, scriptSerializedCoin) =>
      mintLoop nValue isZCSpendChange (nMintingValue + denomination.toAmount)
        { vin := built.vin
          vout := built.vout ++
            [{ nValue := denomination.toAmount, scriptPubKey := scriptSerializedCoin }]
          vMints := built.vMints ++ [mint]
          nFeeRet := nFeeRet }
termination_by (nValue - nMintingValue).toNat
decreasing_by exact remaining_decreases (closest_of_remaining ‹_›)

/-- `CreateZerocoinMintTransaction`, for a transaction that is empty so far. -/
def createZerocoinMintTransaction (nValue : Int) (isZCSpendChange : Bool) :
    Except String Built :=
  if env.isLocked then .error "Error: Wallet locked, unable to create transaction!"
  else
    match mintLoop env nValue isZCSpendChange 0 ⟨[], [], [], 0⟩ with
    | none => .error "failed to validate zerocoin"
    | some built =>
      let nFee : Int := env.zerocoinMintFee * built.vout.length
      if isZCSpendChange then .ok built
      else
        match selectCoins env.chances env.hasSelected env.bSpendZeroConfChange env.vCoins
            (nValue + nFee) with
        | none => .error ("Insufficient or insufficient confirmed funds, " ++
          "you might need to wait a few minutes and try again.")
        | some selected =>
          let nChange := selected.nValueRet - (nValue + nFee)
          let outChange : CTxOut :=
            { nValue := nChange, scriptPubKey := env.getLargestContributor selected.setCoinsRet }
          let built := { built with
            vin := selected.setCoinsRet
            vout :=
              if 0 < nChange ∧ outChange.isDust env.minRelayTxFee = false then
                built.vout ++ [outChange]
              else built.vout }
          if selected.setCoinsRet.all env.signSignature then .ok built
          else .error "Signing transaction failed"

/-- The value of outputs. -/
def valueOf (vout : List CTxOut) : Int :=
  (vout.map CTxOut.nValue).sum

/-- Behind the mints stands the change.  Inputs and outputs differ by the mint fee and an amount
of dust at most, and a part of the amount that is not minted is in the change. -/
structure Built.KeepsCoins (env : MintEnv) (nValue : Int) (built : Built) : Prop where
  excess : ∃ nDust, total built.vin - valueOf built.vout =
      env.zerocoinMintFee * built.vMints.length + nDust ∧
    (nDust = 0 ∨ 0 < nDust ∧
      CTxOut.isDust ⟨nDust, env.getLargestContributor built.vin, -10⟩ env.minRelayTxFee = true)
  rest : valueOf (built.vout.take built.vMints.length) < nValue →
    valueOf (built.vout.drop built.vMints.length) =
      total built.vin - valueOf (built.vout.take built.vMints.length) -
        env.zerocoinMintFee * built.vMints.length

variable {env : MintEnv} {nValue nMintingValue : Int} {built next : Built}

@[simp] theorem valueOf_nil : valueOf [] = 0 := rfl

@[simp] theorem valueOf_singleton (out : CTxOut) : valueOf [out] = out.nValue :=
  Int.add_zero _

@[simp] theorem valueOf_append (first second : List CTxOut) :
    valueOf (first ++ second) = valueOf first + valueOf second := by
  rw [valueOf, List.map_append, List.sum_append]
  rfl

/-- What is minted is what the least denomination leaves no rest of. -/
theorem mintLoop_mints
    (positive : 0 ≤ nValue - nMintingValue)
    (sum : valueOf built.vout = nMintingValue)
    (counted : built.vMints.length = built.vout.length)
    (returned : mintLoop env nValue false nMintingValue built = some next) :
    next.vMints.length = next.vout.length ∧
      nValue - valueOf next.vout = (nValue - nMintingValue) % (50 * coin) := by
  induction left : (nValue - nMintingValue).toNat using Nat.strong_induction_on
    generalizing nMintingValue built with
  | h bound ih =>
    rw [mintLoop] at returned
    simp only [Bool.false_eq_true, false_and, if_false] at returned
    split_ifs at returned with ended
    · cases returned
      rcases amountToClosestDenomination_spec
        (valueRemaining env nValue nMintingValue built.vout.length false)
        (valueRemaining env nValue nMintingValue built.vout.length false) with
        ⟨small, -⟩ | ⟨-, listed, -⟩
      · rw [valueRemaining] at small
        refine ⟨counted, ?_⟩
        rw [sum, Int.emod_eq_of_lt positive (by simpa using small)]
      · exact absurd ended (toAmount_of_listed _ listed).1
    · have fits := closest_of_remaining ended
      obtain ⟨-, -, multiple⟩ := toAmount_of_listed _ fits.1
      have less := remaining_decreases fits
      generalize (amountToClosestDenomination
        (valueRemaining env nValue nMintingValue built.vout.length false)
        (valueRemaining env nValue nMintingValue built.vout.length false)).1 = d at *
      cases coined : env.newCoin built.vout.length d with
      | none =>
        rw [coined] at returned
        cases returned
      | some minted =>
        rw [coined] at returned
        obtain ⟨minted, rest⟩ := ih _ (left ▸ less) (by omega)
          (by simp [valueOf, ← sum]) (by simp [counted]) returned rfl
        refine ⟨minted, rest.trans ?_⟩
        obtain ⟨factor, same⟩ := multiple
        rw [same, show nValue - (nMintingValue + 50 * coin * factor) =
          nValue - nMintingValue - 50 * coin * factor by omega, Int.sub_mul_emod_self_left]

theorem Built.keepsCoins_iff
    {vout change : List CTxOut}
    (outputs : built.vout = vout ++ change)
    (counted : built.vMints.length = vout.length)
    (within : valueOf vout ≤ nValue)
    (due : total built.vin = nValue + env.zerocoinMintFee * vout.length + nChange)
    (returned : 0 < nChange ∧
        change = [⟨nChange, env.getLargestContributor built.vin, -10⟩] ∨
      change = [] ∧ (nChange = 0 ∨ 0 < nChange ∧
        CTxOut.isDust ⟨nChange, env.getLargestContributor built.vin, -10⟩ env.minRelayTxFee)) :
    built.KeepsCoins env nValue ↔ valueOf vout = nValue := by
  have mints : built.vout.take built.vMints.length = vout := by
    rw [outputs, List.take_left' counted.symm]
  have others : built.vout.drop built.vMints.length = change := by
    rw [outputs, List.drop_left' counted.symm]
  have all : valueOf built.vout = valueOf vout + valueOf change := by rw [outputs, valueOf_append]
  constructor
  · intro keeps
    by_contra less
    have rest := keeps.rest
    rw [mints, others, counted, due] at rest
    have returns := rest (lt_of_le_of_ne within less)
    rcases returned with ⟨-, rfl⟩ | ⟨rfl, dust⟩
    · rw [valueOf_singleton] at returns
      dsimp only at returns
      omega
    · rw [valueOf_nil] at returns
      omega
  · intro whole
    refine ⟨?_, fun less => ?_⟩
    · rw [all, counted, due, whole]
      rcases returned with ⟨-, rfl⟩ | ⟨rfl, dust⟩
      · refine ⟨0, ?_, .inl rfl⟩
        rw [valueOf_singleton]
        dsimp only
        omega
      · refine ⟨nChange, ?_, dust⟩
        rw [valueOf_nil]
        omega
    · rw [mints, whole] at less
      exact absurd less (lt_irrefl _)

/-- What is minted keeps the coins of the wallet exactly if denominations cover the amount. -/
theorem createZerocoinMintTransaction_keeps_iff
    (env : MintEnv)
    (nValue : Int)
    (built : Built)
    (apart : (env.vCoins.map point).Nodup)
    (small : ∀ output ∈ env.vCoins, output.nValue < int64Max)
    (positive : 0 < nValue)
    (created : createZerocoinMintTransaction env nValue false = .ok built) :
    built.KeepsCoins env nValue ↔ nValue % (50 * coin) = 0 := by
  rw [createZerocoinMintTransaction] at created
  cases unlocked : env.isLocked with
  | true =>
    rw [unlocked] at created
    cases created
  | false =>
  cases minting : mintLoop env nValue false 0 ⟨[], [], [], 0⟩ with
  | none =>
    rw [unlocked, minting] at created
    cases created
  | some minted =>
  cases selecting : selectCoins env.chances env.hasSelected env.bSpendZeroConfChange env.vCoins
      (nValue + env.zerocoinMintFee * minted.vout.length) with
  | none =>
    simp only [unlocked, minting, selecting, Bool.false_eq_true, if_false] at created
    cases created
  | some selected =>
  simp only [unlocked, minting, selecting, Bool.false_eq_true, if_false] at created
  obtain ⟨counted, rest⟩ := mintLoop_mints (by omega : 0 ≤ nValue - 0) rfl rfl minting
  rw [Int.sub_zero] at rest
  have covers := covers_selectCoins apart small selecting
  have value := covers.value
  have reaches := covers.reaches
  have notNegative : 0 ≤ nValue % (50 * coin) := Int.emod_nonneg _ (by decide)
  have same : valueOf minted.vout = nValue ↔ nValue % (50 * coin) = 0 := by omega
  rw [← same]
  -- The change is that of the amount asked for, whatever part of it was minted.
  have due : total selected.setCoinsRet = nValue + env.zerocoinMintFee * minted.vout.length +
      (selected.nValueRet - (nValue + env.zerocoinMintFee * minted.vout.length)) := by
    rw [← value]
    omega
  split_ifs at created with signed change
  · cases created
    exact Built.keepsCoins_iff rfl counted (by omega) due (.inl ⟨change.1, rfl⟩)
  · cases created
    refine Built.keepsCoins_iff (List.append_nil _).symm counted (by omega) due (.inr ⟨rfl, ?_⟩)
    by_cases none : selected.nValueRet - (nValue + env.zerocoinMintFee * minted.vout.length) = 0
    · exact .inl none
    · refine .inr ⟨by omega, ?_⟩
      by_contra notDust
      exact change ⟨by omega, by simpa using notDust⟩

/-- A wallet with one coin of 100 coins, which the user has selected. -/
def oneCoin : MintEnv where
  isLocked := false
  vCoins := [⟨7, 0, 100 * coin, 10, false, true⟩]
  denominations := []
  chances _ := Chance.stable [] fun _ _ _ => true
  hasSelected := true
  bSpendZeroConfChange := true
  zerocoinMintFee := 100000000
  minRelayTxFee := 10000
  newCoin _ _ := some (⟨5, 6, 0, 0, false⟩, [0xc1])
  getLargestContributor _ := [1]
  signSignature _ := true

theorem mint_seventyFive :
    createZerocoinMintTransaction oneCoin (75 * coin) false =
      .ok ⟨[⟨7, 0, 100 * coin, 10, false, true⟩],
        [⟨50 * coin, [0xc1], -10⟩, ⟨24 * coin, [1], -10⟩], [⟨5, 6, 0, 0, false⟩], coin⟩ := by
  have minting : mintLoop oneCoin (75 * coin) false 0 ⟨[], [], [], 0⟩ =
      some ⟨[], [⟨50 * coin, [0xc1], -10⟩], [⟨5, 6, 0, 0, false⟩], coin⟩ := by
    rw [mintLoop, if_neg (by decide), dif_neg (by decide)]
    show mintLoop oneCoin (75 * coin) false (50 * coin)
      ⟨[], [⟨50 * coin, [0xc1], -10⟩], [⟨5, 6, 0, 0, false⟩], coin⟩ = _
    rw [mintLoop, if_neg (by decide), dif_pos (by decide)]
    rfl
  rw [createZerocoinMintTransaction, minting]
  rfl

/-- The other 25 coins are paid as a fee. -/
theorem mint_burns_rest :
    ∃ built, createZerocoinMintTransaction oneCoin (75 * coin) false = .ok built ∧
      total built.vin - valueOf built.vout = 26 * coin ∧ built.vMints.length = 1 ∧
        ¬ built.KeepsCoins oneCoin (75 * coin) := by
  refine ⟨_, mint_seventyFive, by decide, rfl, fun keeps => ?_⟩
  exact absurd (keeps.rest (by decide)) (by decide)

theorem createZerocoinMintTransaction_keeps_iff_seventyFive :
    Built.KeepsCoins oneCoin (75 * coin)
        ⟨[⟨7, 0, 100 * coin, 10, false, true⟩],
          [⟨50 * coin, [0xc1], -10⟩, ⟨24 * coin, [1], -10⟩], [⟨5, 6, 0, 0, false⟩], coin⟩ ↔
      75 * coin % (50 * coin) = 0 :=
  createZerocoinMintTransaction_keeps_iff oneCoin (75 * coin) _ (by decide) (by decide)
    (by decide) mint_seventyFive

end MintTransaction
end ColossusCoin
