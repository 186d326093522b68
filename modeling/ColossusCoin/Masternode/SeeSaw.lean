import ColossusCoin.Library.BinaryRounding
import ColossusCoin.Masternode.BudgetProducer

/-!
# The see-saw of the masternode payment

Between the fourth and the sixth height the share of the masternode falls, step by step, with
the part of the money supply that masternodes hold.  The source computes the steps and the
share in numbers of 53 binary digits.  The payment falls with the count of masternodes as soon
as there is one; without any it is nothing.
-/

namespace ColossusCoin

open BinaryRounding

/-- The value of a `double`. -/
def toDouble (x : ℚ) : ℚ :=
  roundTo 53 x

/-- The conversion of a `double` to an integer, which drops the digits behind the point. -/
def truncate (x : ℚ) : Int :=
  if 0 ≤ x then ⌊x⌋ else ⌈x⌉

/-- `GetRequiredMasternodeCollateral`, the same on all networks. -/
def requiredMasternodeCollateral : Int := 10000000 * coin

/-- The steps: up to so many thousandths of the money supply, so many hundredths of the
reward. -/
def seeSawSteps : List (Nat × Nat) :=
  [ (10, 90), (20, 88), (30, 87), (40, 86), (50, 85), (60, 84), (70, 83), (80, 82), (90, 81),
    (100, 80), (110, 79), (120, 78), (130, 77), (140, 76), (150, 75), (160, 74), (170, 73),
    (180, 72), (190, 71), (200, 70), (210, 69), (220, 68), (230, 67), (240, 66), (250, 65),
    (260, 64), (270, 63), (280, 62), (290, 61), (300, 60), (310, 59), (320, 58), (330, 57),
    (340, 56), (350, 55), (363, 54), (376, 53), (389, 52), (402, 51), (415, 50), (428, 49),
    (441, 48), (454, 47), (467, 46), (480, 45), (493, 44), (506, 43), (519, 42), (532, 41),
    (545, 40), (558, 39), (571, 38), (584, 37), (597, 36), (610, 35), (623, 34), (636, 33),
    (649, 32), (662, 31), (675, 30), (688, 29), (701, 28), (714, 27), (727, 26), (740, 25),
    (753, 24), (766, 23), (779, 22), (792, 21), (805, 20), (818, 19), (831, 18), (844, 17),
    (857, 16), (870, 15), (883, 14), (896, 13), (909, 12), (922, 11), (935, 10), (945, 9),
    (961, 8), (974, 7), (987, 6), (990, 5) ]

/-- The share, in hundredths, of the first step that the coins of the masternodes are within
and above whose lower end they are; one hundredth beyond all steps. -/
def seeSawShare (nNodeCoins nMoneySupply : ℚ) : ℚ → List (Nat × Nat) → Nat
  | _, [] => 1
  | lower, (limit, share) :: rest =>
    let upper := toDouble (nMoneySupply * toDouble (limit / 1000))
    if nNodeCoins ≤ upper ∧ lower < nNodeCoins then share
    else seeSawShare nNodeCoins nMoneySupply upper rest

/-- `GetMasternodePaymentSeeSaw`.  The coins of up to 9223 masternodes fit in 64 bits, and there
are not coins for as many. -/
def getMasternodePaymentSeeSaw (params : CChainParams)
    (nHeight nMasternodeCount nMoneySupply : Int) : Int :=
  let nReward := getBlockValueReward params nHeight - getBlockValueDevFund params nHeight
  let nNodeCoins := nMasternodeCount * requiredMasternodeCollateral
  if nNodeCoins = 0 then 0
  else
    truncate (toDouble (toDouble nReward *
      toDouble (seeSawShare (toDouble nNodeCoins) (toDouble nMoneySupply) 0 seeSawSteps / 100)))

section Share

theorem seeSawShare_le
    (descends : ∀ step ∈ steps, step.2 ≤ share)
    (least : 1 ≤ share) :
    seeSawShare nNodeCoins nMoneySupply lower steps ≤ share := by
  induction steps generalizing lower with
  | nil => exact least
  | cons step rest ih =>
    rw [List.forall_mem_cons] at descends
    rw [seeSawShare]
    split_ifs
    · exact descends.1
    · exact ih descends.2

theorem one_le_seeSawShare
    (shares : ∀ step ∈ steps, 1 ≤ step.2) :
    1 ≤ seeSawShare nNodeCoins nMoneySupply lower steps := by
  induction steps generalizing lower with
  | nil => exact le_refl 1
  | cons step rest ih =>
    rw [List.forall_mem_cons] at shares
    rw [seeSawShare]
    split_ifs
    · exact shares.1
    · exact ih shares.2

theorem seeSawShare_antitone
    (shares : ∀ step ∈ steps, 1 ≤ step.2)
    (descends : steps.Pairwise fun step later => later.2 ≤ step.2)
    (above : lower < fewer)
    (le : fewer ≤ more) :
    seeSawShare more nMoneySupply lower steps ≤ seeSawShare fewer nMoneySupply lower steps := by
  induction steps generalizing lower with
  | nil => exact le_refl 1
  | cons step rest ih =>
    rw [List.forall_mem_cons] at shares
    rw [List.pairwise_cons] at descends
    rw [seeSawShare, seeSawShare]
    by_cases within : more ≤ toDouble (nMoneySupply * toDouble (step.1 / 1000))
    · rw [if_pos (And.intro within (above.trans_le le)), if_pos (And.intro (le.trans within) above)]
    · rw [if_neg fun both => within both.1]
      split_ifs with earlier
      · exact seeSawShare_le descends.1 shares.1
      · have beyond : toDouble (nMoneySupply * toDouble (step.1 / 1000)) < fewer := by
          by_contra upTo
          exact earlier (And.intro (not_lt.mp upTo) above)
        exact ih shares.2 descends.2 beyond

end Share

theorem seeSawSteps_shares : ∀ step ∈ seeSawSteps, 1 ≤ step.2 ∧ step.2 ≤ 90 := by
  decide

theorem seeSawSteps_descend :
    seeSawSteps.Pairwise fun step later => later.2 ≤ step.2 := by
  decide

section Payment

theorem toDouble_nonneg (nonneg : 0 ≤ x) : 0 ≤ toDouble x :=
  roundTo_nonneg nonneg

theorem toDouble_mono (nonneg : 0 ≤ x) (le : x ≤ y) : toDouble x ≤ toDouble y :=
  roundTo_mono (by norm_num) nonneg le

theorem toDouble_natCast
    {m : ℕ}
    (positive : 0 < m)
    (fits : m < 2 ^ 53) :
    toDouble m = m :=
  roundTo_natCast positive fits

/-- What a share of the reward comes to, where the development fund is paid from the rest. -/
def seeSawPayment (share : Nat) : Int :=
  truncate (toDouble (toDouble (1200 * coin : Int) * toDouble (share / 100)))

theorem toDouble_reward : toDouble (1200 * coin : Int) = (120000000000 : ℕ) := by
  have digits : ((1200 * coin : Int) : ℚ) = (120000000000 : ℕ) := by
    rw [coin]
    norm_num
  rw [digits]
  exact toDouble_natCast (by norm_num) (by norm_num)

theorem toDouble_share_nonneg (share : Nat) : 0 ≤ toDouble (share / 100) :=
  toDouble_nonneg (div_nonneg (Nat.cast_nonneg share) (by norm_num))

theorem seeSawPayment_eq (share : Nat) :
    seeSawPayment share = ⌊toDouble ((120000000000 : ℕ) * toDouble (share / 100))⌋ := by
  have reward : (0 : ℚ) ≤ (120000000000 : ℕ) := Nat.cast_nonneg _
  have product := mul_nonneg reward (toDouble_share_nonneg share)
  rw [seeSawPayment, toDouble_reward, truncate, if_pos (toDouble_nonneg product)]

theorem seeSawPayment_mono (le : share ≤ other) : seeSawPayment share ≤ seeSawPayment other := by
  have shares : toDouble (share / 100) ≤ toDouble (other / 100) := by
    apply toDouble_mono (div_nonneg (Nat.cast_nonneg share) (by norm_num))
    exact div_le_div_of_nonneg_right (Nat.cast_le.mpr le) (by norm_num)
  rw [seeSawPayment_eq, seeSawPayment_eq]
  apply Int.floor_mono
  apply toDouble_mono (mul_nonneg (Nat.cast_nonneg _) (toDouble_share_nonneg share))
  exact mul_le_mul_of_nonneg_left shares (Nat.cast_nonneg _)

/-- A share of one hundredth or more is something. -/
theorem seeSawPayment_pos (least : 1 ≤ share) : 0 < seeSawPayment share := by
  have eighth : toDouble ((1 : ℕ) * (2 : ℚ) ^ (-7 : ℤ)) = (1 : ℕ) * (2 : ℚ) ^ (-7 : ℤ) :=
    roundTo_of_digits Nat.one_pos (by norm_num) (-7)
  have shares : (1 : ℕ) * (2 : ℚ) ^ (-7 : ℤ) ≤ toDouble (share / 100) := by
    rw [← eighth]
    apply toDouble_mono (by norm_num)
    have atLeast : (1 : ℚ) ≤ share := by exact_mod_cast least
    norm_num
    linarith
  have product : ((937500000 : ℕ) : ℚ) ≤ (120000000000 : ℕ) * toDouble (share / 100) := by
    norm_num at shares ⊢
    linarith
  have rounded := toDouble_mono (Nat.cast_nonneg _) product
  rw [toDouble_natCast (by norm_num) (by norm_num)] at rounded
  rw [seeSawPayment_eq]
  have floor : (937500000 : ℤ) ≤ ⌊toDouble ((120000000000 : ℕ) * toDouble (share / 100))⌋ :=
    Int.le_floor.mpr (by exact_mod_cast rounded)
  omega

/-- A share of a hundred hundredths or less is at most the reward. -/
theorem seeSawPayment_le (most : share ≤ 100) : seeSawPayment share ≤ 1200 * coin := by
  have shares : toDouble (share / 100) ≤ 1 := by
    have one : toDouble ((1 : ℕ) : ℚ) = (1 : ℕ) := toDouble_natCast Nat.one_pos (by norm_num)
    rw [Nat.cast_one] at one
    rw [← one]
    apply toDouble_mono (div_nonneg (Nat.cast_nonneg share) (by norm_num))
    have atMost : (share : ℚ) ≤ 100 := by exact_mod_cast most
    linarith
  have product : (120000000000 : ℕ) * toDouble (share / 100) ≤ ((120000000000 : ℕ) : ℚ) := by
    norm_num
    linarith
  have rounded := toDouble_mono
    (mul_nonneg (Nat.cast_nonneg _) (toDouble_share_nonneg share)) product
  rw [toDouble_natCast (by norm_num) (by norm_num)] at rounded
  have floor : ⌊toDouble ((120000000000 : ℕ) * toDouble (share / 100))⌋ ≤ 120000000000 :=
    Int.floor_le_iff.mpr (by norm_num; linarith)
  rw [seeSawPayment_eq, coin]
  omega

end Payment

/-- The heights and the shares of a network, as far as payments depend on them. -/
structure PaymentSchedule (params : CChainParams) : Prop where
  first : params.getChainHeight .h1 = 1
  second : params.getChainHeight .h2 ≤ params.getChainHeight .h4
  third : params.getChainHeight .h3 ≤ params.getChainHeight .h4
  fourth : 1 < params.getChainHeight .h4
  sixth : params.getChainHeight .h6 ≤ params.getChainHeight .h8
  seeSaw : params.getChainHeight .h4 < params.getChainHeight .h6
  budget : params.nBudgetPercent = 10
  devFund : params.nDevFundPercent = 10

theorem CChainParams.IsNetwork.paymentSchedule
    (network : params.IsNetwork) :
    PaymentSchedule params := by
  rcases network with rfl | rfl | rfl <;>
    exact ⟨by decide, by decide, by decide, by decide, by decide, by decide, by decide, by decide⟩

section Schedule

theorem getBlockValue_of_h4
    (schedule : PaymentSchedule params)
    (fourth : params.getChainHeight .h4 ≤ nHeight) :
    getBlockValue params nHeight = 1500 * coin := by
  have first := schedule.first
  have second := schedule.second
  have third := schedule.third
  have later := schedule.fourth
  rw [getBlockValue, if_neg (by omega), if_neg (by omega), if_neg (by omega), if_neg (by omega),
    if_neg (by omega)]

theorem le_getBlockValue
    (schedule : PaymentSchedule params)
    (positive : 0 < nHeight) :
    1000 * coin ≤ getBlockValue params nHeight := by
  have first := schedule.first
  unfold getBlockValue coin
  split_ifs <;> omega

theorem getBlockValueDevFund_of_h4
    (schedule : PaymentSchedule params)
    (fourth : params.getChainHeight .h4 ≤ nHeight) :
    getBlockValueDevFund params nHeight = 150 * coin := by
  rw [getBlockValueDevFund, if_neg (by omega), getBlockValue_of_h4 schedule fourth,
    schedule.devFund]
  rfl

theorem getBlockValueReward_of_h4
    (schedule : PaymentSchedule params)
    (fourth : params.getChainHeight .h4 ≤ nHeight)
    (early : nHeight < params.getChainHeight .h8) :
    getBlockValueReward params nHeight = 1350 * coin := by
  have first := schedule.first
  have later := schedule.fourth
  rw [getBlockValueReward, if_neg (by omega), if_neg (by omega), if_pos early,
    getBlockValue_of_h4 schedule fourth, schedule.budget]
  rfl

theorem le_getBlockValueReward
    (schedule : PaymentSchedule params)
    (positive : 0 < nHeight) :
    800 * coin ≤ getBlockValueReward params nHeight := by
  have value := le_getBlockValue schedule positive
  have budget := schedule.budget
  have devFund := schedule.devFund
  unfold coin at value ⊢
  unfold getBlockValueReward
  rw [budget, devFund]
  split_ifs
  · omega
  · rw [Int.tdiv_eq_ediv_of_nonneg (by omega)]
    omega
  · rw [Int.tdiv_eq_ediv_of_nonneg (by omega)]
    omega
  · rw [Int.tdiv_eq_ediv_of_nonneg (by omega)]
    omega

theorem getBlockValueReward_le
    (schedule : PaymentSchedule params)
    (nHeight : Int) :
    getBlockValueReward params nHeight ≤ 12000000000 * coin := by
  have nonneg := getBlockValue_nonneg params nHeight
  have value : getBlockValue params nHeight ≤ 12000000000 * coin := by
    unfold getBlockValue coin
    split_ifs <;> omega
  unfold getBlockValueReward
  rw [schedule.budget, schedule.devFund]
  split_ifs
  · exact value
  · rw [Int.tdiv_eq_ediv_of_nonneg (by omega)]
    omega
  · rw [Int.tdiv_eq_ediv_of_nonneg (by omega)]
    omega
  · rw [Int.tdiv_eq_ediv_of_nonneg (by omega)]
    omega

end Schedule

section MasternodePayment

/-- The see-saw applies at the height. -/
def isSeeSawHeight (params : CChainParams) (nHeight : Int) : Prop :=
  params.getChainHeight .h4 ≤ nHeight ∧ nHeight < params.getChainHeight .h6

theorem getMasternodePaymentSeeSaw_zero (params : CChainParams) (nHeight nMoneySupply : Int) :
    getMasternodePaymentSeeSaw params nHeight 0 nMoneySupply = 0 := by
  simp [getMasternodePaymentSeeSaw]

/-- The share that some masternodes have. -/
def masternodeShare (nMasternodeCount nMoneySupply : Int) : Nat :=
  seeSawShare (toDouble (nMasternodeCount * requiredMasternodeCollateral : Int))
    (toDouble nMoneySupply) 0 seeSawSteps

theorem getMasternodePaymentSeeSaw_eq
    (schedule : PaymentSchedule params)
    (applies : isSeeSawHeight params nHeight)
    (some : 0 < nMasternodeCount)
    (nMoneySupply : Int) :
    getMasternodePaymentSeeSaw params nHeight nMasternodeCount nMoneySupply =
      seeSawPayment (masternodeShare nMasternodeCount nMoneySupply) := by
  have sixth := schedule.sixth
  have coins : nMasternodeCount * requiredMasternodeCollateral ≠ 0 :=
    mul_ne_zero (by omega) (by decide)
  have reward : getBlockValueReward params nHeight - getBlockValueDevFund params nHeight =
      1200 * coin := by
    rw [getBlockValueReward_of_h4 schedule applies.1 (by have := applies.2; omega),
      getBlockValueDevFund_of_h4 schedule applies.1]
    rfl
  rw [getMasternodePaymentSeeSaw, reward, seeSawPayment, masternodeShare, if_neg coins]

theorem masternodeShare_antitone
    {fewer more : Int}
    (some : 0 < fewer)
    (le : fewer ≤ more)
    (nMoneySupply : Int) :
    masternodeShare more nMoneySupply ≤ masternodeShare fewer nMoneySupply := by
  have collateral : 0 < requiredMasternodeCollateral := by decide
  have coins : 1 ≤ fewer * requiredMasternodeCollateral := Int.mul_pos some collateral
  apply seeSawShare_antitone (fun step member => (seeSawSteps_shares step member).1)
    seeSawSteps_descend
  · have one : toDouble ((1 : ℕ) : ℚ) = (1 : ℕ) := toDouble_natCast Nat.one_pos (by norm_num)
    have rounded : toDouble ((1 : ℕ) : ℚ) ≤ toDouble (fewer * requiredMasternodeCollateral : Int) :=
      toDouble_mono (Nat.cast_nonneg 1) (by exact_mod_cast coins)
    rw [one, Nat.cast_one] at rounded
    linarith
  · apply toDouble_mono
    · exact_mod_cast (by omega : 0 ≤ fewer * requiredMasternodeCollateral)
    · exact_mod_cast Int.mul_le_mul_of_nonneg_right le collateral.le

/-- The development fund's payment in a block, which superblocks make from the eighth height
on. -/
def devFundPayment (params : CChainParams) (nHeight : Int) : Int :=
  if nHeight < params.getChainHeight .h8 then getBlockValueDevFund params nHeight else 0

theorem devFundPayment_nonneg
    (schedule : PaymentSchedule params)
    (nHeight : Int) :
    0 ≤ devFundPayment params nHeight := by
  unfold devFundPayment
  split_ifs
  · by_cases fourth : params.getChainHeight .h4 ≤ nHeight
    · rw [getBlockValueDevFund_of_h4 schedule fourth]
      decide
    · rw [getBlockValueDevFund, if_pos (Int.not_le.mp fourth)]
  · exact le_refl 0

theorem getMasternodePayment_congr
    (outside : ¬isSeeSawHeight params nHeight)
    (seeSaw : Int → Int → Int → Int)
    (nCount nOther nMoneySupply : Int) :
    getMasternodePayment params seeSaw nHeight nCount nMoneySupply =
      getMasternodePayment params seeSaw nHeight nOther nMoneySupply := by
  unfold getMasternodePayment
  split_ifs with early between
  · rfl
  · exact absurd (And.intro (Int.not_lt.mp early) between) outside
  · rfl
  · rfl

theorem getMasternodePayment_outside
    (schedule : PaymentSchedule params)
    (positive : 0 < nHeight)
    (outside : ¬isSeeSawHeight params nHeight)
    (seeSaw : Int → Int → Int → Int)
    (nCount nMoneySupply : Int) :
    0 < getMasternodePayment params seeSaw nHeight nCount nMoneySupply ∧
      getMasternodePayment params seeSaw nHeight nCount nMoneySupply +
        devFundPayment params nHeight ≤ getBlockValueReward params nHeight := by
  have reward := le_getBlockValueReward schedule positive
  have fourth := schedule.fourth
  unfold isSeeSawHeight at outside
  unfold coin at reward
  unfold getMasternodePayment devFundPayment
  by_cases early : nHeight < params.getChainHeight .h4
  · have noFund : getBlockValueDevFund params nHeight = 0 := if_pos early
    rw [if_pos early, noFund, ite_self, Int.tdiv_eq_ediv_of_nonneg (by omega)]
    omega
  · rw [if_neg early]
    have late : ¬nHeight < params.getChainHeight .h6 := by omega
    rw [if_neg late]
    split_ifs with beforeEighth
    · rw [getBlockValueReward_of_h4 schedule (by omega) beforeEighth,
        getBlockValueDevFund_of_h4 schedule (by omega)]
      decide
    · rw [Int.tdiv_eq_ediv_of_nonneg (by omega)]
      omega

/-- With the see-saw and a masternode the payment is positive, and leaves the payment to the
development fund. -/
theorem getMasternodePayment_seeSaw
    (schedule : PaymentSchedule params)
    (applies : isSeeSawHeight params nHeight)
    (some : 0 < nCount)
    (nMoneySupply : Int) :
    getMasternodePayment params (getMasternodePaymentSeeSaw params) nHeight nCount nMoneySupply =
      seeSawPayment (masternodeShare nCount nMoneySupply) := by
  have early := applies.1
  rw [getMasternodePayment, if_neg (by omega), if_pos applies.2,
    getMasternodePaymentSeeSaw_eq schedule applies some]

/-- `GetMasternodePayment`, with the see-saw as the source computes it. -/
def masternodePayment (params : CChainParams) (nHeight nCount nMoneySupply : Int) : Int :=
  getMasternodePayment params (getMasternodePaymentSeeSaw params) nHeight nCount nMoneySupply

theorem masternodePayment_pos_iff
    (schedule : PaymentSchedule params)
    (positive : 0 < nHeight)
    (counted : 0 ≤ nCount)
    (nMoneySupply : Int) :
    0 < masternodePayment params nHeight nCount nMoneySupply ↔
      ¬(isSeeSawHeight params nHeight ∧ nCount = 0) := by
  by_cases applies : isSeeSawHeight params nHeight
  · rcases counted.eq_or_lt with rfl | some
    · have early := applies.1
      rw [masternodePayment, getMasternodePayment, if_neg (by omega), if_pos applies.2,
        getMasternodePaymentSeeSaw_zero]
      simp [applies]
    · rw [masternodePayment, getMasternodePayment_seeSaw schedule applies some]
      refine iff_of_true ?_ fun both => some.ne' both.2
      exact seeSawPayment_pos (one_le_seeSawShare fun step member =>
        (seeSawSteps_shares step member).1)
  · exact iff_of_true
      (getMasternodePayment_outside schedule positive applies _ nCount nMoneySupply).1
      fun both => applies both.1

theorem masternodePayment_bounds
    (schedule : PaymentSchedule params)
    (positive : 0 < nHeight)
    (counted : 0 ≤ nCount)
    (nMoneySupply : Int) :
    0 ≤ masternodePayment params nHeight nCount nMoneySupply ∧
      masternodePayment params nHeight nCount nMoneySupply + devFundPayment params nHeight ≤
        getBlockValueReward params nHeight := by
  by_cases applies : isSeeSawHeight params nHeight
  · have sixth := schedule.sixth
    have before : nHeight < params.getChainHeight .h8 := by
      have := applies.2
      omega
    have fund : devFundPayment params nHeight = 150 * coin := by
      rw [devFundPayment, if_pos before, getBlockValueDevFund_of_h4 schedule applies.1]
    rw [fund, getBlockValueReward_of_h4 schedule applies.1 before]
    rcases counted.eq_or_lt with rfl | some
    · have early := applies.1
      rw [masternodePayment, getMasternodePayment, if_neg (by omega), if_pos applies.2,
        getMasternodePaymentSeeSaw_zero]
      decide
    · rw [masternodePayment, getMasternodePayment_seeSaw schedule applies some]
      have least : 1 ≤ masternodeShare nCount nMoneySupply :=
        one_le_seeSawShare fun step member => (seeSawSteps_shares step member).1
      have most : masternodeShare nCount nMoneySupply ≤ 100 :=
        seeSawShare_le
          (fun step member => ((seeSawSteps_shares step member).2).trans (by decide)) (by decide)
      have atLeast := seeSawPayment_pos least
      have atMost := seeSawPayment_le most
      omega
  · have outside := getMasternodePayment_outside schedule positive applies
      (getMasternodePaymentSeeSaw params) nCount nMoneySupply
    exact And.intro outside.1.le outside.2

theorem masternodePayment_antitone
    (schedule : PaymentSchedule params)
    (some : isSeeSawHeight params nHeight → 0 < fewer)
    (le : fewer ≤ more)
    (nMoneySupply : Int) :
    masternodePayment params nHeight more nMoneySupply ≤
      masternodePayment params nHeight fewer nMoneySupply := by
  by_cases applies : isSeeSawHeight params nHeight
  · have positive := some applies
    rw [masternodePayment, masternodePayment, getMasternodePayment_seeSaw schedule applies positive,
      getMasternodePayment_seeSaw schedule applies (positive.trans_le le)]
    exact seeSawPayment_mono (masternodeShare_antitone positive le nMoneySupply)
  · exact (getMasternodePayment_congr applies _ more fewer nMoneySupply).le

end MasternodePayment

end ColossusCoin
