import ColossusCoin.Chain.CompactTargets

/-!
# The trust of a chain

`GetBlockTrust` and the sum `bnChainTrust` of it along a chain.  The power of two that the trust of
a proof-of-stake block divides is shifted out of the `uint256`.
-/

namespace ColossusCoin

namespace BlockTrust

/-- What `GetBlockTrust` reads of an entry of the block index. -/
structure CBlockIndex where
  nBits : BitVec 32
  fProofOfStake : Bool

/-- `bnTarget`, whose flags are not asked for. -/
def CBlockIndex.bnTarget (pindex : CBlockIndex) : Words256 :=
  (Words256.setCompact pindex.nBits).1

/-- `GetBlockTrust`, which fails where a division would. -/
def getBlockTrust (pindex : CBlockIndex) : Option Words256 :=
  if BaseUint.compareTo pindex.bnTarget (Words256.ofUint64 0) ≤ 0 then some (Words256.ofUint64 0)
  else if pindex.fProofOfStake then
    BaseUint.divAssign (BaseUint.shlAssign (Words256.ofUint64 1) 256)
      (BaseUint.addAssign pindex.bnTarget (Words256.ofUint64 1))
  else
    (BaseUint.divAssign
      (BaseUint.shrAssign (BaseUint.complement (Words256.ofUint64 0)) 20)
      (BaseUint.addAssign pindex.bnTarget (Words256.ofUint64 1))).map fun bnPoWTrust =>
        if BaseUint.compareTo bnPoWTrust (Words256.ofUint64 1) > 0 then bnPoWTrust
        else Words256.ofUint64 1

/-- The values of `bnChainTrust` from an entry with this one on, as `AddToBlockIndex` sets it. -/
def bnChainTrusts (bnChainTrust : Words256) : List CBlockIndex → Option (List Words256)
  | [] => some [bnChainTrust]
  | pindexNew :: rest => do
      let trust ← getBlockTrust pindexNew
      let trusts ← bnChainTrusts (BaseUint.addAssign bnChainTrust trust) rest
      return bnChainTrust :: trusts

/-- The target as a number: what of the encoded number has a place in 256 bits. -/
def CBlockIndex.target (pindex : CBlockIndex) : Nat :=
  compactMagnitude pindex.nBits.toNat % 2 ^ 256

/-- The work that a proof-of-work block adds. -/
def workTrust (target : Nat) : Nat := max ((2 ^ 236 - 1) / (target + 1)) 1

theorem toNat_bnTarget (pindex : CBlockIndex) : pindex.bnTarget.toNat = pindex.target := by
  rw [CBlockIndex.bnTarget, (Words256.setCompact_eq_number _).1, setCompact_eq_flags]
  rfl

/-- The successor of a target has a place in 256 bits, whatever overflows. -/
theorem target_succ_lt (pindex : CBlockIndex) : pindex.target + 1 < 2 ^ 256 := by
  have bounded := shortMantissa_lt pindex.nBits.toNat
  rw [CBlockIndex.target, compactMagnitude_eq]
  rcases Nat.eq_zero_or_pos (pindex.nBits.toNat / 2 ^ 24 - 3) with short | long
  · rw [short, Nat.pow_zero, Nat.mul_one, Nat.mod_eq_of_lt (Nat.lt_trans bounded (by decide))]
    exact Nat.lt_trans (Nat.succ_lt_succ bounded) (by decide)
  · obtain ⟨bytes, size⟩ := Nat.exists_eq_succ_of_ne_zero (Nat.ne_of_gt long)
    rw [size, Nat.succ_eq_add_one, Nat.pow_succ, ← Nat.mul_assoc]
    omega

theorem toNat_target_succ (pindex : CBlockIndex) :
    (BaseUint.addAssign pindex.bnTarget (Words256.ofUint64 1)).toNat = pindex.target + 1 := by
  have one : (Words256.ofUint64 1).toNat = 1 := Words256.toNat_ofUint64 1
  rw [BaseUint.toNat_addAssign, toNat_bnTarget, one]
  exact Nat.mod_eq_of_lt (target_succ_lt pindex)

theorem compareTo_zero_iff (pindex : CBlockIndex) :
    BaseUint.compareTo pindex.bnTarget (Words256.ofUint64 0) ≤ 0 ↔ pindex.target = 0 := by
  have zero : (Words256.ofUint64 0).toNat = 0 := Words256.toNat_ofUint64 0
  rw [BaseUint.compareTo_eq, toNat_bnTarget, zero]
  split_ifs <;> omega

theorem getBlockTrust_eq (pindex : CBlockIndex) :
    ∃ trust, getBlockTrust pindex = some trust ∧
      trust.toNat =
        if pindex.target = 0 ∨ pindex.fProofOfStake = true then 0 else workTrust pindex.target := by
  have zero : (Words256.ofUint64 0).toNat = 0 := Words256.toNat_ofUint64 0
  have one : (Words256.ofUint64 1).toNat = 1 := Words256.toNat_ofUint64 1
  -- no division throws, as the divisor is the successor of a number
  have divided : ∀ num, ∃ quotient,
      BaseUint.divAssign num (BaseUint.addAssign pindex.bnTarget (Words256.ofUint64 1)) =
          some quotient ∧
        quotient.toNat = num.toNat / (pindex.target + 1) := by
    intro num
    have exact := BaseUint.divAssign_eq num
      (BaseUint.addAssign pindex.bnTarget (Words256.ofUint64 1))
    rw [toNat_target_succ, if_neg (Nat.succ_ne_zero _), Option.map_eq_some_iff] at exact
    exact exact
  rw [getBlockTrust]
  by_cases none : pindex.target = 0
  · rw [if_pos ((compareTo_zero_iff pindex).mpr none), if_pos (Or.inl none)]
    exact ⟨_, rfl, zero⟩
  · rw [if_neg fun below => none ((compareTo_zero_iff pindex).mp below)]
    by_cases stake : pindex.fProofOfStake = true
    · -- 2 ** 256 leaves nothing in 256 bits
      have shifted : (BaseUint.shlAssign (Words256.ofUint64 1) 256).toNat = 0 := by
        rw [BaseUint.toNat_shlAssign, one, Nat.one_mul]
        exact Nat.mod_self _
      obtain ⟨quotient, computed, exact⟩ := divided (BaseUint.shlAssign (Words256.ofUint64 1) 256)
      rw [shifted, Nat.zero_div] at exact
      rw [if_pos stake, if_pos (Or.inr stake)]
      exact ⟨quotient, computed, exact⟩
    · have numerator : (BaseUint.shrAssign (BaseUint.complement (Words256.ofUint64 0)) 20).toNat =
          2 ^ 236 - 1 := by
        rw [BaseUint.toNat_shrAssign, BaseUint.toNat_complement, zero]
        decide
      obtain ⟨bnPoWTrust, computed, exact⟩ := divided
        (BaseUint.shrAssign (BaseUint.complement (Words256.ofUint64 0)) 20)
      have neither : ¬ (pindex.target = 0 ∨ pindex.fProofOfStake = true) := by
        rintro (zero | proof)
        · exact none zero
        · exact stake proof
      rw [if_neg stake, if_neg neither, computed, Option.map_some]
      refine ⟨_, rfl, ?_⟩
      rw [numerator] at exact
      rw [workTrust, ← exact, BaseUint.compareTo_eq, one]
      split_ifs <;> omega

theorem workTrust_pos (target : Nat) : 0 < workTrust target :=
  Nat.lt_of_lt_of_le Nat.one_pos (Nat.le_max_right _ _)

/-- The trust that an entry adds. -/
def addedTrust (pindex : CBlockIndex) : Nat :=
  if pindex.target = 0 ∨ pindex.fProofOfStake = true then 0 else workTrust pindex.target

/-- Every value is larger than the one before exactly when every entry adds something and the sum
has a place in 256 bits. -/
theorem isChain_bnChainTrusts_iff
    (bnChainTrust : Words256)
    (chain : List CBlockIndex) :
    ∃ trusts, bnChainTrusts bnChainTrust chain = some (bnChainTrust :: trusts) ∧
      ((bnChainTrust :: trusts).IsChain (fun before after => before.toNat < after.toNat) ↔
        (∀ pindex ∈ chain, 0 < addedTrust pindex) ∧
          bnChainTrust.toNat + (chain.map addedTrust).sum < 2 ^ 256) := by
  induction chain generalizing bnChainTrust with
  | nil =>
    have bounded := BaseUint.toNat_lt bnChainTrust
    refine ⟨[], rfl, ?_⟩
    rw [List.map_nil, List.sum_nil, Nat.add_zero]
    exact ⟨fun _ => ⟨nofun, bounded⟩, fun _ => List.IsChain.singleton _⟩
  | cons pindex rest ih =>
    obtain ⟨trust, computed, exact⟩ := getBlockTrust_eq pindex
    have added : trust.toNat = addedTrust pindex := exact
    obtain ⟨trusts, later, increasing⟩ :=
      ih (BaseUint.addAssign bnChainTrust trust)
    have trustBounded := BaseUint.toNat_lt trust
    have sum := BaseUint.toNat_addAssign bnChainTrust trust
    refine ⟨BaseUint.addAssign bnChainTrust trust :: trusts, ?_, ?_⟩
    · rw [bnChainTrusts, computed, Option.bind_eq_bind, Option.bind_some, later]
      rfl
    · rw [List.isChain_cons_cons, increasing, List.forall_mem_cons, List.map_cons, List.sum_cons,
        sum, added]
      -- a sum that wraps around is not larger
      have step : bnChainTrust.toNat <
          (bnChainTrust.toNat + addedTrust pindex) % 2 ^ (32 * 8) ↔
            0 < addedTrust pindex ∧ bnChainTrust.toNat + addedTrust pindex < 2 ^ 256 := by
        omega
      constructor
      · rintro ⟨grows, positive, below⟩
        obtain ⟨some, within⟩ := step.mp grows
        rw [Nat.mod_eq_of_lt within] at below
        exact ⟨⟨some, positive⟩, by omega⟩
      · rintro ⟨⟨some, positive⟩, below⟩
        have within : bnChainTrust.toNat + addedTrust pindex < 2 ^ 256 := by omega
        rw [Nat.mod_eq_of_lt within]
        exact ⟨by omega, positive, by omega⟩

/-- The claim about a chain: each proof-of-stake block with a valid positive target has the trust
that its target calls for, and the trust of the chain grows with every block. -/
def TrustGrows (chain : List CBlockIndex) : Prop :=
  (∀ pindex ∈ chain, pindex.fProofOfStake = true →
    0 < compactNumber pindex.nBits.toNat → compactNumber pindex.nBits.toNat < 2 ^ 256 →
    ∃ trust, getBlockTrust pindex = some trust ∧
      (trust.toNat : Int) = 2 ^ 256 / (compactNumber pindex.nBits.toNat + 1)) ∧
  ∃ trusts, bnChainTrusts (Words256.ofUint64 0) chain = some trusts ∧
    trusts.IsChain fun before after => before.toNat < after.toNat

/-- The trust grows as claimed exactly along the chains without any proof-of-stake block whose
targets are not zero and whose work has a place in 256 bits. -/
theorem trustGrows_iff (chain : List CBlockIndex) :
    TrustGrows chain ↔
      (∀ pindex ∈ chain, pindex.fProofOfStake = false ∧ pindex.target ≠ 0) ∧
        (chain.map fun pindex => workTrust pindex.target).sum < 2 ^ 256 := by
  have zero : (Words256.ofUint64 0).toNat = 0 := Words256.toNat_ofUint64 0
  obtain ⟨trusts, computed, increasing⟩ :=
    isChain_bnChainTrusts_iff (Words256.ofUint64 0) chain
  have grows : ∀ pindex, 0 < addedTrust pindex ↔
      pindex.fProofOfStake = false ∧ pindex.target ≠ 0 := by
    intro pindex
    have positive := workTrust_pos pindex.target
    unfold addedTrust
    rw [← Bool.not_eq_true]
    split_ifs with nothing
    · exact ⟨fun less => absurd less (Nat.lt_irrefl 0), fun both => absurd nothing (by tauto)⟩
    · exact ⟨fun _ => by tauto, fun _ => positive⟩
  simp only [grows, zero, Nat.zero_add] at increasing
  have sums : (∀ pindex ∈ chain, pindex.fProofOfStake = false ∧ pindex.target ≠ 0) →
      chain.map addedTrust = chain.map fun pindex => workTrust pindex.target := by
    intro working
    refine List.map_congr_left fun pindex member => ?_
    obtain ⟨work, nonzero⟩ := working pindex member
    refine if_neg ?_
    rw [work]
    rintro (none | stake)
    · exact nonzero none
    · cases stake
  constructor
  · rintro ⟨_, later, found, chained⟩
    rw [computed] at found
    cases found
    obtain ⟨working, bounded⟩ := increasing.mp chained
    exact ⟨working, by rwa [← sums working]⟩
  · rintro ⟨working, bounded⟩
    refine ⟨?_, _, computed, increasing.mpr ⟨working, by rwa [sums working]⟩⟩
    intro pindex member stake
    rw [(working pindex member).1] at stake
    cases stake

/-- A proof-of-stake block with the first target of the chain. -/
theorem stake_not_trustGrows : ¬ TrustGrows [⟨0x1e0ffff0, true⟩] := by
  rintro ⟨claimed, _⟩
  obtain ⟨trust, computed, exact⟩ :=
    claimed ⟨0x1e0ffff0, true⟩ (List.mem_singleton_self _) rfl (by decide) (by decide)
  obtain ⟨other, same, none⟩ := getBlockTrust_eq ⟨0x1e0ffff0, true⟩
  rw [computed] at same
  cases same
  rw [if_pos (Or.inr rfl)] at none
  rw [none] at exact
  exact absurd exact (by decide)

end BlockTrust

end ColossusCoin
