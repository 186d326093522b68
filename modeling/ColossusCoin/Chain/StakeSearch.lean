import ColossusCoin.Chain.KernelAgreement
import Mathlib.Order.Bounds.Basic

/-!
# The search for a stake

Without `fCheck`, `CheckStakeKernelHash` tries the times of an interval, the latest one first.
The times have 32 bits, so an interval that reaches beyond them wraps around.
-/

namespace ColossusCoin

/-- What the search leaves: the verdict and the output arguments. -/
structure StakeSearch where
  fSuccess : Bool
  nTimeTx : Nat
  hashProofOfStake : Uint256
  deriving DecidableEq, Repr

section Search

variable (params : CChainParams) (lib : KernelLib) (node : StakeNode) (nBits : Nat)
variable (blockFrom : CBlock) (txPrev : CTransaction) (prevout : COutPoint)

/-- The hash of a stake at a time, and whether it hits the target. -/
def tryStake (nStakeModifier nTryTime : Nat) : Uint256 × Bool :=
  let nValueIn := (txPrev.vout[prevout.n]?.getD (lib.pastEnd txPrev prevout.n)).nValue
  let hashProof := lib.stakeHash nStakeModifier blockFrom.nTime prevout.n prevout.hash nTryTime
  (hashProof, stakeTargetHit hashProof nValueIn (setCompact nBits).1)

/-- The iterations that are left; `chainHeight` tells the height of the tip in each of them. -/
def searchLoop (nStakeModifier : Nat) (nHeightStart : Int) (chainHeight : Nat → Int)
    (nTimeTx nHashDrift : Nat) : Nat → Uint256 → StakeSearch
  | 0, hashProofOfStake => ⟨false, nTimeTx, hashProofOfStake⟩
  | left + 1, hashProofOfStake =>
    let i := nHashDrift - (left + 1)
    if chainHeight i ≠ nHeightStart then ⟨false, nTimeTx, hashProofOfStake⟩
    else
      let nTryTime := (nTimeTx + nHashDrift - i) % 2 ^ 32
      let tried := tryStake lib nBits blockFrom txPrev prevout nStakeModifier nTryTime
      if tried.2 then ⟨true, nTryTime, tried.1⟩
      else searchLoop nStakeModifier nHeightStart chainHeight nTimeTx nHashDrift left tried.1

/-- `CheckStakeKernelHash` without `fCheck`, but for the time that it records for the tip. -/
def StakeNode.searchStakeKernel (chainHeight : Nat → Int) (nTimeTx nHashDrift : Nat)
    (hashProofOfStake : Uint256) : StakeSearch :=
  if nTimeTx < blockFrom.nTime then ⟨false, nTimeTx, hashProofOfStake⟩
  else if (nTimeTx : Int) < blockFrom.nTime + params.getMinStakeAge (node.height + 1) then
    ⟨false, nTimeTx, hashProofOfStake⟩
  else
    match node.getKernelStakeModifier blockFrom.hash with
    | none => ⟨false, nTimeTx, hashProofOfStake⟩
    | some nStakeModifier =>
      searchLoop lib nBits blockFrom txPrev prevout nStakeModifier node.height chainHeight
        nTimeTx nHashDrift nHashDrift hashProofOfStake

/-- The kernel hits the target at a time, whatever its age. -/
def StakeNode.HitsAt (nTryTime : Nat) : Prop :=
  ∃ nStakeModifier, node.getKernelStakeModifier blockFrom.hash = some nStakeModifier ∧
    (tryStake lib nBits blockFrom txPrev prevout nStakeModifier nTryTime).2 = true

/-- The times after the start and up to the interval that the call with `fCheck` accepts. -/
def StakeNode.acceptedTimes (nTimeTx nHashDrift : Nat) (hashProofOfStake : Uint256) : Set Nat :=
  { nTime | nTimeTx < nTime ∧ nTime ≤ nTimeTx + nHashDrift ∧ nTime < 2 ^ 32 ∧
    (node.checkStakeKernelHash params lib nBits blockFrom txPrev prevout nTime
      hashProofOfStake).1 = true }

/-- The search succeeds where the check accepts some time, with the latest one and its hash. -/
def StakeNode.SearchAgrees (chainHeight : Nat → Int) (nTimeTx nHashDrift : Nat)
    (hashProofOfStake : Uint256) : Prop :=
  let search := node.searchStakeKernel params lib nBits blockFrom txPrev prevout chainHeight
    nTimeTx nHashDrift hashProofOfStake
  let accepted := node.acceptedTimes params lib nBits blockFrom txPrev prevout nTimeTx nHashDrift
    hashProofOfStake
  (search.fSuccess = true ↔ accepted.Nonempty) ∧
    (search.fSuccess = true → IsGreatest accepted search.nTimeTx ∧
      search.hashProofOfStake = (node.checkStakeKernelHash params lib nBits blockFrom txPrev
        prevout search.nTimeTx hashProofOfStake).2)

end Search

variable {params : CChainParams} {lib : KernelLib} {node : StakeNode} {nBits : Nat}
variable {blockFrom : CBlock} {txPrev : CTransaction} {prevout : COutPoint}
variable {nStakeModifier nTimeTx nHashDrift : Nat} {chainHeight : Nat → Int}

/-- While the tip stays, the loop stops at the first of its times that hits, if there is one. -/
theorem searchLoop_spec
    {nHeightStart : Int}
    (unchanged : ∀ i, chainHeight i = nHeightStart)
    {left : Nat}
    (within : left ≤ nHashDrift)
    (hashProofOfStake : Uint256) :
    let hits := fun step => (tryStake lib nBits blockFrom txPrev prevout nStakeModifier
      ((nTimeTx + step) % 2 ^ 32)).2 = true
    let search := searchLoop lib nBits blockFrom txPrev prevout nStakeModifier nHeightStart
      chainHeight nTimeTx nHashDrift left hashProofOfStake
    (search.fSuccess = false ∧ ∀ step, 0 < step → step ≤ left → ¬ hits step) ∨
      ∃ step, 0 < step ∧ step ≤ left ∧ hits step ∧
        (∀ later, step < later → later ≤ left → ¬ hits later) ∧
        search = ⟨true, (nTimeTx + step) % 2 ^ 32, (tryStake lib nBits blockFrom txPrev prevout
          nStakeModifier ((nTimeTx + step) % 2 ^ 32)).1⟩ := by
  induction left generalizing hashProofOfStake with
  | zero => exact .inl ⟨rfl, fun step positive none => by omega⟩
  | succ left ih =>
    dsimp only
    have time : nTimeTx + nHashDrift - (nHashDrift - (left + 1)) = nTimeTx + (left + 1) := by omega
    rw [searchLoop, if_neg (not_not.mpr (unchanged _)), time]
    dsimp only
    split_ifs with hit
    · refine .inr ⟨left + 1, Nat.succ_pos left, Nat.le_refl _, hit, ?_, rfl⟩
      exact fun later above below => absurd above (Nat.not_lt.mpr below)
    · have up : ∀ step ≤ left + 1, step ≤ left ∨ step = left + 1 := fun step below => by omega
      rcases ih (by omega) (tryStake lib nBits blockFrom txPrev prevout nStakeModifier
        ((nTimeTx + (left + 1)) % 2 ^ 32)).1 with ⟨fails, misses⟩ | ⟨step, positive, below, hits,
        misses, found⟩
      · refine .inl ⟨fails, fun step positive below => ?_⟩
        rcases up step below with below | rfl
        · exact misses step positive below
        · exact hit
      · refine .inr ⟨step, positive, Nat.le_succ_of_le below, hits, fun later above below => ?_,
          found⟩
        rcases up later below with below | rfl
        · exact misses later above below
        · exact hit

/-- At a time that is old enough, the check asks for a hit only. -/
theorem checkStakeKernelHash_eq
    {nTime : Nat}
    (found : node.getKernelStakeModifier blockFrom.hash = some nStakeModifier)
    (after : blockFrom.nTime ≤ nTime)
    (aged : (blockFrom.nTime : Int) + params.getMinStakeAge (node.height + 1) ≤ nTime)
    (hashProofOfStake : Uint256) :
    node.checkStakeKernelHash params lib nBits blockFrom txPrev prevout nTime hashProofOfStake =
      ((tryStake lib nBits blockFrom txPrev prevout nStakeModifier nTime).2,
        (tryStake lib nBits blockFrom txPrev prevout nStakeModifier nTime).1) := by
  rw [StakeNode.checkStakeKernelHash, if_neg (Nat.not_lt.mpr after), if_neg (Int.not_lt.mpr aged),
    found]
  rfl

/-- While the tip stays, search and check agree from a start that meets the minimum age exactly
if the kernel hits at none of the times that the interval reaches by wrapping around. -/
theorem searchStakeKernel_agrees_iff
    (unchanged : ∀ i, chainHeight i = node.height)
    (after : blockFrom.nTime ≤ nTimeTx)
    (aged : (blockFrom.nTime : Int) + params.getMinStakeAge (node.height + 1) ≤ nTimeTx)
    (startRange : nTimeTx < 2 ^ 32)
    (driftRange : nHashDrift < 2 ^ 32)
    (hashProofOfStake : Uint256) :
    node.SearchAgrees params lib nBits blockFrom txPrev prevout chainHeight nTimeTx nHashDrift
        hashProofOfStake ↔
      ∀ nTryTime, nTryTime + 2 ^ 32 ≤ nTimeTx + nHashDrift →
        ¬ node.HitsAt lib nBits blockFrom txPrev prevout nTryTime := by
  unfold StakeNode.SearchAgrees StakeNode.acceptedTimes
  dsimp only
  rw [StakeNode.searchStakeKernel, if_neg (Nat.not_lt.mpr after), if_neg (Int.not_lt.mpr aged)]
  cases found : node.getKernelStakeModifier blockFrom.hash with
  | none =>
    have refuses : ∀ nTime, (node.checkStakeKernelHash params lib nBits blockFrom txPrev prevout
        nTime hashProofOfStake).1 = false := by
      intro nTime
      rw [StakeNode.checkStakeKernelHash, found]
      split_ifs <;> rfl
    simp [refuses, StakeNode.HitsAt, found]
  | some nStakeModifier =>
    have hitsAt : ∀ nTime, node.HitsAt lib nBits blockFrom txPrev prevout nTime ↔
        (tryStake lib nBits blockFrom txPrev prevout nStakeModifier nTime).2 = true := by
      simp [StakeNode.HitsAt, found]
    have checked : ∀ nTime, nTimeTx < nTime →
        node.checkStakeKernelHash params lib nBits blockFrom txPrev prevout nTime
          hashProofOfStake =
            ((tryStake lib nBits blockFrom txPrev prevout nStakeModifier nTime).2,
              (tryStake lib nBits blockFrom txPrev prevout nStakeModifier nTime).1) :=
      fun nTime later => checkStakeKernelHash_eq found (by omega) (by omega) hashProofOfStake
    -- A time of the interval, and one behind the wrap, is tried at its own step.
    have plain : ∀ nTime, nTimeTx < nTime → nTime < 2 ^ 32 →
        (nTimeTx + (nTime - nTimeTx)) % 2 ^ 32 = nTime := fun nTime _ _ => by omega
    have wrapped : ∀ nTime, nTime + 2 ^ 32 ≤ nTimeTx + nHashDrift →
        (nTimeTx + (nTime + 2 ^ 32 - nTimeTx)) % 2 ^ 32 = nTime := fun nTime _ => by omega
    simp only [hitsAt]
    rcases @searchLoop_spec lib nBits blockFrom txPrev prevout nStakeModifier nTimeTx nHashDrift
      chainHeight _ unchanged nHashDrift (Nat.le_refl _) hashProofOfStake with
      ⟨fails, misses⟩ | ⟨step, positive, below, hits, misses, succeeds⟩
    · rw [fails]
      refine iff_of_true ⟨iff_of_false Bool.false_ne_true ?_, fun absurd => by cases absurd⟩ ?_
      · rintro ⟨nTime, later, upTo, range, accepts⟩
        rw [checked nTime later, ← plain nTime later range] at accepts
        exact misses _ (by omega) (by omega) accepts
      · intro nTime reaches hit
        rw [← wrapped nTime reaches] at hit
        exact misses _ (by omega) (by omega) hit
    · rw [succeeds]
      dsimp only
      by_cases fits : nTimeTx + step < 2 ^ 32
      · have same : (nTimeTx + step) % 2 ^ 32 = nTimeTx + step := Nat.mod_eq_of_lt fits
        rw [same] at hits ⊢
        have accepts := checked (nTimeTx + step) (by omega)
        refine iff_of_true ⟨iff_of_true rfl ⟨nTimeTx + step, by omega, by omega, fits, ?_⟩,
          fun _ => ⟨⟨⟨by omega, by omega, fits, ?_⟩, ?_⟩, by rw [accepts]⟩⟩ ?_
        · rw [accepts, hits]
        · rw [accepts, hits]
        · rintro nTime ⟨later, upTo, range, accepts⟩
          by_contra above
          rw [checked nTime later, ← plain nTime later range] at accepts
          exact misses _ (by omega) (by omega) accepts
        · intro nTime reaches hit
          rw [← wrapped nTime reaches] at hit
          exact misses _ (by omega) (by omega) hit
      · refine iff_of_false (fun agrees => ?_) fun misses => misses _ (by omega) hits
        have later := (agrees.2 rfl).1.1.1
        omega

/-- The theorem for an interval that does not reach beyond 32 bits. -/
theorem searchStakeKernel_agrees_iff_leftNode :
    leftNode.SearchAgrees .main easyKernel 0x1f00ffff stakedBlock stakedTx ⟨11, 0⟩
      (fun _ => leftNode.height) 700000 60 0 :=
  (searchStakeKernel_agrees_iff (fun _ => rfl) (by decide) (by decide) (by decide) (by decide)
    0).mpr fun nTryTime reaches => by omega

/-- From the last time of 32 bits, the search finds a stake at time 0, which the check refuses. -/
theorem search_finds_wrapped_time :
    ¬ leftNode.SearchAgrees .main easyKernel 0x1f00ffff stakedBlock stakedTx ⟨11, 0⟩
      (fun _ => leftNode.height) (2 ^ 32 - 1) 1 0 := by
  rintro ⟨-, found⟩
  exact absurd (found rfl).1.1.1 (by decide)

end ColossusCoin
