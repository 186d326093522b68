import ColossusCoin.Library.MultiWord
import ColossusCoin.Pow
import ColossusCoin.Primitives.Block
import Mathlib.Data.Nat.Bitwise

/-!
# The next target

`GetNextWorkRequired` computes the target of a block from that of the block before it and the
time that this one took.  The product in between is one of a 256-bit number and an `uint32_t`,
to which the 64-bit factor is converted.
-/

namespace ColossusCoin

open LeadingBits

/-! ## The compact form -/

theorem bitsOf_eq_size (number : Uint256) : bitsOf number = Nat.size number := by
  unfold bitsOf
  split_ifs with zero
  · rw [zero, Nat.size_zero]
  · apply Nat.le_antisymm
    · exact Nat.lt_size.mpr (Nat.log2_self_le zero)
    · exact Nat.size_le.mpr Nat.lt_log2_self

/-- The leading three bytes of a number of so many bytes. -/
def leadingBytes (number : Uint256) (nSize : Nat) : Nat :=
  if nSize ≤ 3 then number * 2 ^ (8 * (3 - nSize)) else number / 2 ^ (8 * (nSize - 3))

theorem leadingBytes_lt
    (short : Nat.size number + 24 ≤ 8 * nSize + bits) :
    leadingBytes number nSize < 2 ^ bits := by
  have below : number < 2 ^ Nat.size number := Nat.lt_size_self number
  unfold leadingBytes
  split_ifs with small
  · calc number * 2 ^ (8 * (3 - nSize))
        < 2 ^ Nat.size number * 2 ^ (8 * (3 - nSize)) :=
          Nat.mul_lt_mul_of_pos_right below (Nat.two_pow_pos _)
      _ = 2 ^ (Nat.size number + 8 * (3 - nSize)) := (Nat.pow_add _ _ _).symm
      _ ≤ 2 ^ bits := Nat.pow_le_pow_right (by omega) (by omega)
  · rw [Nat.div_lt_iff_lt_mul (Nat.two_pow_pos _), ← Nat.pow_add]
    exact Nat.lt_of_lt_of_le below (Nat.pow_le_pow_right (by omega) (by omega))

theorem le_leadingBytes
    (positive : 0 < number)
    (long : 8 * nSize + bits < Nat.size number + 24) :
    2 ^ bits ≤ leadingBytes number nSize := by
  unfold leadingBytes
  split_ifs with small
  · rcases Nat.lt_or_ge bits (8 * (3 - nSize)) with fewer | more
    · calc 2 ^ bits ≤ 2 ^ (8 * (3 - nSize)) := Nat.pow_le_pow_right (by omega) fewer.le
        _ ≤ number * 2 ^ (8 * (3 - nSize)) := Nat.le_mul_of_pos_left _ positive
    · have highest : 2 ^ (bits - 8 * (3 - nSize)) ≤ number := Nat.lt_size.mp (by omega)
      calc 2 ^ bits = 2 ^ (bits - 8 * (3 - nSize)) * 2 ^ (8 * (3 - nSize)) := by
            rw [← Nat.pow_add, Nat.sub_add_cancel more]
        _ ≤ number * 2 ^ (8 * (3 - nSize)) := Nat.mul_le_mul_right _ highest
  · rw [Nat.le_div_iff_mul_le (Nat.two_pow_pos _), ← Nat.pow_add]
    exact Nat.lt_size.mp (by omega)

/-- Of a number that is taken to be one byte longer, one byte less is kept. -/
theorem leadingBytes_succ (number : Uint256) (nSize : Nat) :
    leadingBytes number (nSize + 1) = leadingBytes number nSize / 2 ^ 8 := by
  unfold leadingBytes
  rcases Nat.lt_trichotomy nSize 3 with small | exactly | large
  · have split : 8 * (3 - nSize) = 8 * (3 - (nSize + 1)) + 8 := by omega
    rw [if_pos (by omega), if_pos (by omega), split, Nat.pow_add, ← Nat.mul_assoc,
      Nat.mul_div_cancel _ (Nat.two_pow_pos 8)]
  · subst exactly
    simp
  · have split : 8 * (nSize + 1 - 3) = 8 * (nSize - 3) + 8 := by omega
    rw [if_neg (by omega), if_neg (by omega), split, Nat.pow_add, Nat.div_div_eq_div_mul]

/-- The exponent of the compact form: the bytes of the number, with a bit for the sign. -/
def compactExponent (number : Uint256) : Nat :=
  Nat.size number / 8 + 1

/-- The mantissa of the compact form. -/
def compactMantissa (number : Uint256) : Nat :=
  leadingBytes number (compactExponent number)

/-- The mantissa leaves the bit of the sign free. -/
theorem compactMantissa_lt (number : Uint256) : compactMantissa number < 2 ^ 23 := by
  apply leadingBytes_lt
  unfold compactExponent
  omega

/-- A mantissa with the bit of the sign is made a byte shorter. -/
theorem shorten_eq
    (small : raw < 2 ^ 24)
    (size : Nat) :
    (if raw &&& 0x00800000 != 0 then (raw >>> 8) ||| ((size + 1) <<< 24)
      else raw ||| (size <<< 24)) =
      if 2 ^ 23 ≤ raw then raw / 2 ^ 8 + (size + 1) * 2 ^ 24 else raw + size * 2 ^ 24 := by
  have bit : raw &&& 0x00800000 = (raw / 2 ^ 23 % 2) * 2 ^ 23 := by
    have power : 0x00800000 = 2 ^ 23 := rfl
    rw [power, Nat.and_two_pow, Nat.testBit_eq_decide_div_mod_eq]
    rcases Nat.mod_two_eq_zero_or_one (raw / 2 ^ 23) with even | odd
    · rw [even]
      rfl
    · rw [odd]
      rfl
  have join : ∀ low high, low < 2 ^ 24 → low ||| (high <<< 24) = low + high * 2 ^ 24 := by
    intro low high fits
    rw [Nat.or_comm, ← Nat.shiftLeft_add_eq_or_of_lt fits, Nat.shiftLeft_eq, Nat.add_comm]
  rw [bit, join raw size small, join (raw >>> 8) (size + 1) (by
    rw [Nat.shiftRight_eq_div_pow]
    omega), Nat.shiftRight_eq_div_pow]
  rcases Nat.lt_or_ge raw (2 ^ 23) with short | long
  · rw [Nat.div_eq_of_lt short, if_neg (Nat.not_le_of_lt short)]
    simp
  · have one : raw / 2 ^ 23 = 1 := by omega
    rw [one, if_pos long]
    simp

/-- `GetCompact` takes the leading three bytes, and one byte less where they have the bit of the
sign. -/
theorem getCompact_eq_leadingBytes (number : Uint256) :
    getCompact number =
      if 2 ^ 23 ≤ leadingBytes number ((Nat.size number + 7) / 8) then
        leadingBytes number ((Nat.size number + 7) / 8) / 2 ^ 8 +
          ((Nat.size number + 7) / 8 + 1) * 2 ^ 24
      else
        leadingBytes number ((Nat.size number + 7) / 8) + (Nat.size number + 7) / 8 * 2 ^ 24 := by
  have small : leadingBytes number ((Nat.size number + 7) / 8) < 2 ^ 24 :=
    leadingBytes_lt (by omega)
  have raw : (if (Nat.size number + 7) / 8 ≤ 3 then
        (number <<< (8 * (3 - (Nat.size number + 7) / 8))) % 2 ^ 32
      else (number >>> (8 * ((Nat.size number + 7) / 8 - 3))) % 2 ^ 32) =
        leadingBytes number ((Nat.size number + 7) / 8) := by
    rw [← Nat.mod_eq_of_lt (Nat.lt_trans small (by decide : 2 ^ 24 < 2 ^ 32)), leadingBytes,
      Nat.shiftLeft_eq, Nat.shiftRight_eq_div_pow]
    split_ifs <;> rfl
  unfold getCompact
  rw [bitsOf_eq_size]
  dsimp only
  rw [raw, shorten_eq small]

theorem getCompact_eq
    (positive : 0 < number) :
    getCompact number = compactMantissa number + compactExponent number * 2 ^ 24 := by
  rw [getCompact_eq_leadingBytes]
  unfold compactMantissa
  rcases Nat.eq_zero_or_pos (Nat.size number % 8) with whole | part
  · have exponent : compactExponent number = (Nat.size number + 7) / 8 + 1 := by
      unfold compactExponent
      omega
    rw [if_pos (le_leadingBytes positive (by omega)), exponent, leadingBytes_succ]
  · have exponent : compactExponent number = (Nat.size number + 7) / 8 := by
      unfold compactExponent
      omega
    have free : leadingBytes number ((Nat.size number + 7) / 8) < 2 ^ 23 :=
      leadingBytes_lt (by omega)
    rw [if_neg free.not_ge, exponent]

/-- Reading the compact form back clears all bits but the leading ones. -/
theorem setCompact_getCompact
    (below : number < 2 ^ 256) :
    (setCompact (getCompact number)).1 = leading (fun size => 8 * (size / 8 - 2)) number := by
  rcases Nat.eq_zero_or_pos number with rfl | positive
  · decide
  · have mantissa := compactMantissa_lt number
    have size : (compactMantissa number + compactExponent number * 2 ^ 24) >>> 24 =
        compactExponent number := by
      rw [Nat.shiftRight_eq_div_pow]
      omega
    have word : (compactMantissa number + compactExponent number * 2 ^ 24) &&& 0x007fffff =
        compactMantissa number := by
      have mask : 0x007fffff = 2 ^ 23 - 1 := rfl
      rw [mask, Nat.and_two_pow_sub_one_eq_mod]
      omega
    have cleared : 8 * (Nat.size number / 8 - 2) = 8 * (compactExponent number - 3) := by
      unfold compactExponent
      omega
    unfold setCompact leading
    rw [getCompact_eq positive]
    dsimp only
    rw [size, word, cleared]
    unfold compactMantissa leadingBytes
    split_ifs with small
    · have nothing : compactExponent number - 3 = 0 := by omega
      rw [nothing, Nat.shiftRight_eq_div_pow, Nat.mul_div_cancel _ (Nat.two_pow_pos _)]
      simp
    · rw [Nat.shiftLeft_eq, Nat.mod_eq_of_lt]
      exact Nat.lt_of_le_of_lt (Nat.div_mul_le_self _ _) below

/-- The parameters of the chain that `GetNextWorkRequired` reads. -/
structure WorkParams where
  bnProofOfWorkLimit : Uint256
  bnProofOfStakeLimit : Uint256
  nTargetSpacing : Int
  nTargetTimespan : Int
  nPastBlocksMin : Int
  spacing_pos : 0 < nTargetSpacing
  timespan_nonneg : 0 ≤ nTargetTimespan

namespace WorkParams

/-- `CMainParams`. -/
def main : WorkParams where
  bnProofOfWorkLimit := (2 ^ 256 - 1) >>> 20
  bnProofOfStakeLimit := (2 ^ 256 - 1) >>> 24
  nTargetSpacing := 1 * 60
  nTargetTimespan := 1 * 60 * 40
  nPastBlocksMin := 24
  spacing_pos := by decide
  timespan_nonneg := by decide

/-- `CTestNetParams`. -/
def testNet : WorkParams where
  bnProofOfWorkLimit := (2 ^ 256 - 1) >>> 1
  bnProofOfStakeLimit := main.bnProofOfStakeLimit
  nTargetSpacing := 1 * 60
  nTargetTimespan := 1 * 60 * 40
  nPastBlocksMin := 10080
  spacing_pos := by decide
  timespan_nonneg := by decide

/-- `CRegTestParams`. -/
def regTest : WorkParams where
  bnProofOfWorkLimit := (2 ^ 256 - 1) >>> 1
  bnProofOfStakeLimit := main.bnProofOfStakeLimit
  nTargetSpacing := 1 * 60
  nTargetTimespan := 24 * 60 * 60
  nPastBlocksMin := 200
  spacing_pos := by decide
  timespan_nonneg := by decide

/-- The parameters are those of one of the networks. -/
def IsNetwork (params : WorkParams) : Prop :=
  params = main ∨ params = testNet ∨ params = regTest

def nInterval (params : WorkParams) : Int :=
  params.nTargetTimespan.tdiv params.nTargetSpacing

/-- The spacing that goes into the computation. -/
def nActualSpacing (difference : Int) : Int :=
  if difference < 0 then 1 else difference

/-- What the target is multiplied by. -/
def multiplier (params : WorkParams) (difference : Int) : Int :=
  (params.nInterval - 1) * params.nTargetSpacing + nActualSpacing difference +
    nActualSpacing difference

/-- What the product is divided by. -/
def divisor (params : WorkParams) : Int :=
  (params.nInterval + 1) * params.nTargetSpacing

end WorkParams

/-- What `GetNextWorkRequired` makes of the target of the last block, with the widths that the
operators of `uint256` work in. -/
def nextTarget (params : WorkParams) (bnOld : Uint256) (difference : Int) : Uint256 :=
  let bnNew := bnOld * (params.multiplier difference % 2 ^ 32).toNat % 2 ^ 256
  let bnNew := bnNew / (params.divisor % 2 ^ 64).toNat
  if bnNew = 0 ∨ params.bnProofOfStakeLimit < bnNew then params.bnProofOfStakeLimit else bnNew

/-- `GetNextWorkRequired`, for the last block and its ancestors.  Without a parent it would go
through a null pointer. -/
def getNextWorkRequired (params : WorkParams) : List CBlockIndex → Option Nat
  | [] => some (getCompact params.bnProofOfWorkLimit)
  | pindexLast :: ancestors =>
    if pindexLast.nHeight = 0 ∨ pindexLast.nHeight < params.nPastBlocksMin then
      some (getCompact params.bnProofOfWorkLimit)
    else
      match ancestors with
      | [] => none
      | pprev :: _ =>
        some (getCompact (nextTarget params (setCompact pindexLast.nBits).1
          ((pindexLast.nTime : Int) - pprev.nTime)))

namespace WorkParams

/-- The new target over the unbounded integers, before any limit. -/
def quotient (params : WorkParams) (bnOld : Uint256) (difference : Int) : Nat :=
  bnOld * (params.multiplier difference).toNat / params.divisor.toNat

/-- The new target: no more than the limit, which also stands for a target that would be zero. -/
def retarget (params : WorkParams) (bnOld : Uint256) (difference : Int) : Nat :=
  if params.quotient bnOld difference = 0 then params.bnProofOfStakeLimit
  else min params.bnProofOfStakeLimit (params.quotient bnOld difference)

/-- The multiplier fits into its 32 bits and the product into its 256 bits. -/
def Fits (params : WorkParams) (bnOld : Uint256) (difference : Int) : Prop :=
  params.multiplier difference < 2 ^ 32 ∧
    bnOld * (params.multiplier difference).toNat < 2 ^ 256

variable {params : WorkParams}

theorem nInterval_nonneg (params : WorkParams) : 0 ≤ params.nInterval :=
  Int.tdiv_nonneg params.timespan_nonneg (Int.le_of_lt params.spacing_pos)

theorem divisor_pos (params : WorkParams) : 0 < params.divisor := by
  have interval := params.nInterval_nonneg
  exact Int.mul_pos (by omega) params.spacing_pos

/-- On the networks the intervals are longer than a block. -/
structure Bounds (params : WorkParams) : Prop where
  interval : 1 ≤ params.nInterval
  divisor : params.divisor < 2 ^ 64
  limit_pos : 0 < params.bnProofOfStakeLimit
  limit_lt : params.bnProofOfStakeLimit < 2 ^ 256

theorem IsNetwork.bounds (network : params.IsNetwork) : params.Bounds := by
  rcases network with rfl | rfl | rfl <;>
    exact ⟨by decide, by decide, by decide, by decide⟩

theorem nActualSpacing_nonneg (difference : Int) : 0 ≤ nActualSpacing difference := by
  unfold nActualSpacing
  split_ifs <;> omega

theorem multiplier_nonneg
    (bounds : params.Bounds)
    (difference : Int) :
    0 ≤ params.multiplier difference := by
  have interval := bounds.interval
  have base := Int.mul_nonneg (show 0 ≤ params.nInterval - 1 by omega)
    (Int.le_of_lt params.spacing_pos)
  have spacing := nActualSpacing_nonneg difference
  unfold multiplier
  omega

/-- A longer spacing gives a larger multiplier. -/
theorem multiplier_mono
    (nonneg : 0 ≤ first)
    (ordered : first ≤ second) :
    params.multiplier first ≤ params.multiplier second := by
  have firstSpacing : nActualSpacing first = first := if_neg (by omega)
  have secondSpacing : nActualSpacing second = second := if_neg (by omega)
  unfold multiplier
  rw [firstSpacing, secondSpacing]
  omega

theorem quotient_mono
    (bnOld : Uint256)
    (nonneg : 0 ≤ first)
    (ordered : first ≤ second) :
    params.quotient bnOld first ≤ params.quotient bnOld second :=
  Nat.div_le_div_right (Nat.mul_le_mul_left _ (Int.toNat_le_toNat (multiplier_mono nonneg ordered)))

/-- Where the quotient is positive the new target grows with the time difference. -/
theorem retarget_mono
    (nonneg : 0 ≤ first)
    (ordered : first ≤ second)
    (positive : 0 < params.quotient bnOld first) :
    params.retarget bnOld first ≤ params.retarget bnOld second := by
  have grows : params.quotient bnOld first ≤ params.quotient bnOld second :=
    quotient_mono bnOld nonneg ordered
  unfold retarget
  rw [if_neg (by omega), if_neg (by omega)]
  omega

end WorkParams

section Computation

variable {params : WorkParams}

theorem nextTarget_within
    (bounds : params.Bounds)
    (bnOld : Uint256) (difference : Int) :
    0 < nextTarget params bnOld difference ∧
      nextTarget params bnOld difference ≤ params.bnProofOfStakeLimit := by
  have limit := bounds.limit_pos
  unfold nextTarget
  dsimp only
  split_ifs with outside
  · exact ⟨limit, Nat.le_refl _⟩
  · exact ⟨Nat.pos_of_ne_zero fun zero => outside (.inl zero),
      Nat.le_of_not_lt fun beyond => outside (.inr beyond)⟩

/-- Where everything fits, the widths of the operators do not matter. -/
theorem nextTarget_eq_retarget
    (bounds : params.Bounds)
    (fits : params.Fits bnOld difference) :
    nextTarget params bnOld difference = params.retarget bnOld difference := by
  have multiplier : params.multiplier difference % 2 ^ 32 = params.multiplier difference :=
    Int.emod_eq_of_lt (WorkParams.multiplier_nonneg bounds difference) fits.1
  have divisor : params.divisor % 2 ^ 64 = params.divisor :=
    Int.emod_eq_of_lt (Int.le_of_lt params.divisor_pos) bounds.divisor
  have quotient : bnOld * (params.multiplier difference).toNat / params.divisor.toNat =
      params.quotient bnOld difference := rfl
  unfold nextTarget WorkParams.retarget
  rw [multiplier, divisor, Nat.mod_eq_of_lt fits.2]
  dsimp only
  rw [quotient]
  by_cases zero : params.quotient bnOld difference = 0
  · rw [if_pos (.inl zero), if_pos zero]
  · rw [if_neg zero]
    by_cases beyond : params.bnProofOfStakeLimit < params.quotient bnOld difference
    · rw [if_pos (.inr beyond), Nat.min_eq_left (Nat.le_of_lt beyond)]
    · rw [if_neg (not_or.mpr ⟨zero, beyond⟩), Nat.min_eq_right (Nat.le_of_not_lt beyond)]

/-- The bits that the compact form keeps of a target. -/
def keptBits (size : Nat) : Nat :=
  8 * (size / 8 - 2)

theorem keptBits_lt (size : Nat) (positive : 0 < size) : keptBits size < size := by
  unfold keptBits
  omega

theorem setCompact_getCompact_of_le
    (bounds : params.Bounds)
    (within : bnNew ≤ params.bnProofOfStakeLimit) :
    (setCompact (getCompact bnNew)).1 = leading keptBits bnNew :=
  setCompact_getCompact (Nat.lt_of_le_of_lt within bounds.limit_lt)

/-- The last block is above the heights at which the difficulty does not change yet. -/
def WorkParams.Retargets (params : WorkParams) (pindexLast : CBlockIndex) : Prop :=
  pindexLast.nHeight ≠ 0 ∧ params.nPastBlocksMin ≤ pindexLast.nHeight

theorem getNextWorkRequired_of_retargets
    (above : params.Retargets pindexLast)
    (pprev : CBlockIndex) (older : List CBlockIndex) :
    getNextWorkRequired params (pindexLast :: pprev :: older) =
      some (getCompact (nextTarget params (setCompact pindexLast.nBits).1
        ((pindexLast.nTime : Int) - pprev.nTime))) := by
  obtain ⟨notGenesis, late⟩ := above
  simp only [getNextWorkRequired]
  rw [if_neg (by omega)]

/-- Above the heights at which the difficulty does not change yet, for all times of the last two
blocks and all bits of the last one: the next target is positive and within the limit; where
nothing exceeds the widths of the operators it is the compact form of the new target over the
unbounded integers; and from a time difference on at which that is not zero it does not fall as
the difference grows. -/
theorem getNextWorkRequired_retargets
    {pindexLast pprev : CBlockIndex} {older : List CBlockIndex}
    (network : params.IsNetwork)
    (above : params.Retargets pindexLast) :
    ∃ nBits, getNextWorkRequired params (pindexLast :: pprev :: older) = some nBits ∧
      (0 < (setCompact nBits).1 ∧ (setCompact nBits).1 ≤ params.bnProofOfStakeLimit) ∧
      (params.Fits (setCompact pindexLast.nBits).1 ((pindexLast.nTime : Int) - pprev.nTime) →
        nBits = getCompact (params.retarget (setCompact pindexLast.nBits).1
          ((pindexLast.nTime : Int) - pprev.nTime)) ∧
        ∀ other otherPrev otherOlder otherBits,
          other.nBits = pindexLast.nBits → params.Retargets other →
          0 ≤ (pindexLast.nTime : Int) - pprev.nTime →
          (pindexLast.nTime : Int) - pprev.nTime ≤ (other.nTime : Int) - otherPrev.nTime →
          params.Fits (setCompact other.nBits).1 ((other.nTime : Int) - otherPrev.nTime) →
          0 < params.quotient (setCompact pindexLast.nBits).1
            ((pindexLast.nTime : Int) - pprev.nTime) →
          getNextWorkRequired params (other :: otherPrev :: otherOlder) = some otherBits →
          (setCompact nBits).1 ≤ (setCompact otherBits).1) := by
  have bounds := network.bounds
  have within := nextTarget_within bounds (setCompact pindexLast.nBits).1
    ((pindexLast.nTime : Int) - pprev.nTime)
  refine ⟨_, getNextWorkRequired_of_retargets above pprev older, ?_, ?_⟩
  · rw [setCompact_getCompact_of_le bounds within.2]
    exact ⟨leading_pos keptBits_lt within.1, (leading_le _ _).trans within.2⟩
  · intro fits
    refine ⟨congrArg getCompact (nextTarget_eq_retarget bounds fits), ?_⟩
    intro other otherPrev otherOlder otherBits sameBits otherAbove nonneg ordered otherFits
      positive run
    rw [getNextWorkRequired_of_retargets otherAbove] at run
    have otherWithin := nextTarget_within bounds (setCompact other.nBits).1
      ((other.nTime : Int) - otherPrev.nTime)
    rw [← Option.some_inj.mp run, setCompact_getCompact_of_le bounds within.2,
      setCompact_getCompact_of_le bounds otherWithin.2, nextTarget_eq_retarget bounds fits,
      nextTarget_eq_retarget bounds otherFits, sameBits]
    exact leading_mono keptBits_lt (WorkParams.retarget_mono nonneg ordered positive)

end Computation

/-- An entry at a height, with a time and bits. -/
def timedEntry (nHeight : Int) (nTime nBits : Nat) : CBlockIndex where
  hash := 0
  nHeight
  nVersion := 4
  nTime
  nBits
  nAccumulatorCheckpoint := 0
  nStatus := ⟨blockValidTree, false, false, false, false⟩
  nUndoPos := 0
  nMint := 0
  nMoneySupply := 0
  mapZerocoinSupply := fun _ => 0
  vMintDenominationsInBlock := []

/-- The theorem at a block that took as long as it should. -/
theorem getNextWorkRequired_retargets_oneMinute :
    ∃ nBits, getNextWorkRequired .main [timedEntry 100 1600000060 0x1d00ffff,
        timedEntry 99 1600000000 0x1d00ffff] = some nBits ∧
      nBits = getCompact (WorkParams.main.retarget (setCompact 0x1d00ffff).1 60) := by
  obtain ⟨nBits, run, _, exactly⟩ :=
    @getNextWorkRequired_retargets .main (timedEntry 100 1600000060 0x1d00ffff)
      (timedEntry 99 1600000000 0x1d00ffff) [] (.inl rfl) ⟨by decide, by decide⟩
  exact ⟨nBits, run, (exactly ⟨by decide, by decide⟩).1⟩

/-- A target of one, in no time at all, is followed by the limit and not by zero; and the easiest
target, after 97 days, is followed by a harder one. -/
theorem zero_target_and_wrapped_target :
    (WorkParams.main.Retargets (timedEntry 100 1600000000 0x01010000) ∧
      (setCompact 0x01010000).1 = 1 ∧
      getNextWorkRequired .main [timedEntry 100 1600000000 0x01010000,
          timedEntry 99 1600000000 0x01010000] ≠
        some (getCompact (min WorkParams.main.bnProofOfStakeLimit
          (WorkParams.main.quotient 1 0)))) ∧
    (WorkParams.main.Retargets (timedEntry 100 1608388608 0x1e00ffff) ∧
      0x1e00ffff = getCompact WorkParams.main.bnProofOfStakeLimit ∧
      getNextWorkRequired .main [timedEntry 100 1608388608 0x1e00ffff,
          timedEntry 99 1600000000 0x1e00ffff] ≠
        some (getCompact (min WorkParams.main.bnProofOfStakeLimit
          (WorkParams.main.quotient (setCompact 0x1e00ffff).1 8388608)))) :=
  ⟨⟨⟨by decide, by decide⟩, by decide, by decide⟩, ⟨by decide, by decide⟩, by decide, by decide⟩

end ColossusCoin
