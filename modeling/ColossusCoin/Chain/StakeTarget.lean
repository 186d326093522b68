import ColossusCoin.Chain.Retarget
import ColossusCoin.Chain.StakeKernel

/-!
# The target of a stake

A stake hits its target if its hash is below the target times its value in units of 10000.  The
product is taken with 256 bits, and the targets that the chain admits leave it no more than 24
bits for the value.
-/

namespace ColossusCoin

open WrappedProducts

/-- `nValueIn / 10000`, over the unbounded integers. -/
def coinDayWeight (nValueIn : Int) : Nat :=
  nValueIn.toNat / 10000

/-- The conversion of a value that is not negative keeps it. -/
theorem stakeTargetHit_eq
    (nonneg : 0 ≤ nValueIn)
    (range : nValueIn ≤ int64Max)
    (hashProofOfStake bnTargetPerCoinDay : Uint256) :
    stakeTargetHit hashProofOfStake nValueIn bnTargetPerCoinDay =
      decide (hashProofOfStake < coinDayWeight nValueIn * bnTargetPerCoinDay % 2 ^ 256) := by
  have same : nValueIn % 2 ^ 64 = nValueIn := by
    unfold int64Max at range
    omega
  unfold stakeTargetHit coinDayWeight
  rw [same]

/-- Every weight is that of some value. -/
theorem coinDayWeight_mul (weight : Nat) : coinDayWeight ((weight * 10000 : Nat) : Int) = weight := by
  rw [coinDayWeight, Int.toNat_natCast, Nat.mul_div_cancel _ (by decide)]

/-- The targets that compact numbers stand for have 256 bits. -/
theorem setCompact_lt (nCompact : Nat) : (setCompact nCompact).1 < 2 ^ 256 := by
  have masked : nCompact &&& 0x007fffff < 2 ^ 23 := by
    have mask : 0x007fffff = 2 ^ 23 - 1 := rfl
    rw [mask, Nat.and_two_pow_sub_one_eq_mod]
    exact Nat.mod_lt _ (Nat.two_pow_pos 23)
  unfold setCompact
  dsimp only
  split_ifs
  · have shifted := Nat.shiftRight_le (nCompact &&& 0x007fffff) (8 * (3 - nCompact >>> 24))
    exact Nat.lt_of_le_of_lt shifted (Nat.lt_trans masked (by decide : 2 ^ 23 < 2 ^ 256))
  · exact Nat.mod_lt _ (Nat.two_pow_pos 256)

/-- For every value that is not negative and all bits: the hash of a stake is compared as over the
unbounded integers, whatever it is, exactly if the weight of the value times the target has no
more than 256 bits; and exactly then the stakes of less value do not hit more. -/
theorem stakeTargetHit_exact_iff
    {nValueIn : Int}
    (nonneg : 0 ≤ nValueIn)
    (range : nValueIn ≤ int64Max)
    (nBits : Nat) :
    ((∀ hashProofOfStake < 2 ^ 256,
        stakeTargetHit hashProofOfStake nValueIn (setCompact nBits).1 = true ↔
          hashProofOfStake < coinDayWeight nValueIn * (setCompact nBits).1) ↔
      coinDayWeight nValueIn * (setCompact nBits).1 < 2 ^ 256) ∧
    ((∀ hashProofOfStake first second, 0 ≤ first → first ≤ second → second ≤ nValueIn →
        stakeTargetHit hashProofOfStake first (setCompact nBits).1 = true →
          stakeTargetHit hashProofOfStake second (setCompact nBits).1 = true) ↔
      coinDayWeight nValueIn * (setCompact nBits).1 < 2 ^ 256) := by
  constructor
  · simp only [stakeTargetHit_eq nonneg range, decide_eq_true_iff]
    exact forall_lt_iff_lt_iff (Nat.two_pow_pos 256)
  · rw [← forall_mod_le_mod_iff (setCompact_lt nBits)]
    constructor
    · intro monotone first second ordered upTo
      have secondUpTo : ((second * 10000 : Nat) : Int) ≤ nValueIn := by
        unfold coinDayWeight at upTo
        omega
      have values : ((first * 10000 : Nat) : Int) ≤ ((second * 10000 : Nat) : Int) :=
        Int.ofNat_le.mpr (Nat.mul_le_mul_right _ ordered)
      by_contra drops
      have hit := monotone (second * (setCompact nBits).1 % 2 ^ 256) _ _
        (Int.natCast_nonneg (first * 10000)) values secondUpTo
      rw [stakeTargetHit_eq (Int.natCast_nonneg _) ((values.trans secondUpTo).trans range),
        stakeTargetHit_eq (Int.natCast_nonneg _) (secondUpTo.trans range),
        decide_eq_true_iff, decide_eq_true_iff, coinDayWeight_mul, coinDayWeight_mul] at hit
      exact absurd (hit (Nat.lt_of_not_le drops)) (Nat.lt_irrefl _)
    · intro monotone hashProofOfStake first second firstNonneg ordered upTo
      rw [stakeTargetHit_eq firstNonneg (by omega), stakeTargetHit_eq (by omega) (by omega),
        decide_eq_true_iff, decide_eq_true_iff]
      intro hit
      have grows := monotone (coinDayWeight first) (coinDayWeight second)
        (Nat.div_le_div_right (Int.toNat_le_toNat ordered))
        (Nat.div_le_div_right (Int.toNat_le_toNat upTo))
      exact Nat.lt_of_lt_of_le hit grows

/-- The theorem at a stake of a thousand coins, and the easiest target. -/
theorem stakeTargetHit_exact_iff_thousandCoins :
    coinDayWeight (1000 * coin) * (setCompact 0x1e00ffff).1 < 2 ^ 256 ∧
      ∀ hashProofOfStake < 2 ^ 256,
        stakeTargetHit hashProofOfStake (1000 * coin) (setCompact 0x1e00ffff).1 = true ↔
          hashProofOfStake < coinDayWeight (1000 * coin) * (setCompact 0x1e00ffff).1 :=
  ⟨by decide, (stakeTargetHit_exact_iff (by decide) (by decide) 0x1e00ffff).1.mpr (by decide)⟩

/-- With the easiest target, a stake of 1677.7473 coins should hit with every hash, but it only
hits with some, and not with one that a stake of 1677.7472 coins hits with. -/
theorem larger_stake_misses :
    0x1e00ffff = getCompact WorkParams.main.bnProofOfStakeLimit ∧
      2 ^ 255 < coinDayWeight 167774730000 * (setCompact 0x1e00ffff).1 ∧
      stakeTargetHit (2 ^ 255) 167774720000 (setCompact 0x1e00ffff).1 = true ∧
      stakeTargetHit (2 ^ 255) 167774730000 (setCompact 0x1e00ffff).1 = false :=
  ⟨by decide, by decide, by decide, by decide⟩

end ColossusCoin
