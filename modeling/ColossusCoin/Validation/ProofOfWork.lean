import ColossusCoin.Validation.CheckBlock

/-!
# Where proof of work is enforced

`CheckBlock` rejects a proof-of-work block that misses its target only on a node
that does not go fast.  The verdicts of the two modes differ on exactly those
blocks whose header check is passed over and which no later check rejects.
-/

namespace ColossusCoin

/-- The same node with another value of `IsOkToGoFast`. -/
def NodeLocal.goingFast (node : NodeLocal) (fast : Bool) : NodeLocal :=
  { node with fOkToGoFast := fast }

/-- A proof-of-work block other than genesis whose hash misses the target of its
`nBits`. -/
def CBlock.missesTarget (params : CChainParams) (block : CBlock) : Bool :=
  block.isProofOfWork && block.hash != params.hashGenesisBlock &&
    !checkProofOfWork params block.hash block.nBits

variable (context : ChainContext) (node : NodeLocal) (fCheckMerkleRoot : Bool)
  (block : CBlock) (checks : CheckState)

theorem checkBlockHeader_eq (params : CChainParams) :
    checkBlockHeader params block.toCBlockHeader block.isProofOfWork checks =
      if block.missesTarget params then
        (false, checks.dos 50 rejectInvalid "high-hash")
      else (true, checks) := by
  unfold checkBlockHeader CBlock.missesTarget
  by_cases genesis : block.hash = params.hashGenesisBlock
  · simp [genesis]
  · simp [genesis]

/-- The first stage, by the two ways in which it can go on. -/
theorem checkBlockHeaderStage_eq :
    checkBlockHeaderStage context node block checks =
      if block.missesTarget context.params = false then (none, checks)
      else if node.fOkToGoFast then
        (none, checks.dos 50 rejectInvalid "high-hash")
      else
        (some .reject,
          (checks.dos 50 rejectInvalid "high-hash").dosCorrupt 100 rejectInvalid "bad-header") := by
  unfold checkBlockHeaderStage
  rw [checkBlockHeader_eq]
  cases block.missesTarget context.params with
  | false => rfl
  | true => rfl

theorem checkTransactions_goingFast (fast fZerocoinActive : Bool) :
    checkTransactions context (node.goingFast fast) fZerocoinActive =
      checkTransactions context node fZerocoinActive := by
  funext txs serials checks
  induction txs generalizing serials checks with
  | nil => rfl
  | cons tx rest ih =>
    rw [checkTransactions, checkTransactions]
    simp only [ih]
    rfl

theorem checkBlockStages_goingFast (fast : Bool) :
    checkBlockStages context (node.goingFast fast) fCheckMerkleRoot block =
      checkBlockStages context node fCheckMerkleRoot block := by
  unfold checkBlockStages
  rw [checkTransactions_goingFast]
  rfl

theorem checkBlock_eq :
    checkBlock context node fCheckMerkleRoot block checks =
      if block.missesTarget context.params = false then
        Stage.run (checkBlockStages context node fCheckMerkleRoot block) checks
      else if node.fOkToGoFast then
        Stage.run (checkBlockStages context node fCheckMerkleRoot block)
          (checks.dos 50 rejectInvalid "high-hash")
      else
        (.reject,
          (checks.dos 50 rejectInvalid "high-hash").dosCorrupt 100 rejectInvalid "bad-header") := by
  have header := checkBlockHeaderStage_eq context node block checks
  unfold checkBlock Stage.run Stage.sequence
  rw [Stage.forEach, id, header]
  cases block.missesTarget context.params with
  | false => rfl
  | true =>
    cases node.fOkToGoFast with
    | false => rfl
    | true => rfl

theorem missesTarget_of_accept
    (slow : node.fOkToGoFast = false)
    (accepted : (checkBlock context node fCheckMerkleRoot block checks).1 = .accept) :
    block.missesTarget context.params = false := by
  by_contra misses
  rw [checkBlock_eq, if_neg misses, slow, if_neg Bool.false_ne_true] at accepted
  cases accepted

/-- On a block that meets its target, the two modes agree on the verdict and on
the state they leave. -/
theorem checkBlock_goingFast_of_meetsTarget
    (meets : block.missesTarget context.params = false) (fast : Bool) :
    checkBlock context (node.goingFast fast) fCheckMerkleRoot block checks =
      checkBlock context node fCheckMerkleRoot block checks := by
  rw [checkBlock_eq, checkBlock_eq, if_pos meets, if_pos meets, checkBlockStages_goingFast]

/-- A zerocoin library for blocks without zerocoins. -/
def bareLib : ZerocoinLib where
  txInToZerocoinSpend := fun _ => none
  validate := fun _ => false
  verify := fun _ _ => false
  hashOutputs := fun _ => 0

/-- The main network, for blocks of one transaction. -/
def bareContext : ChainContext where
  params := .main
  lib := bareLib
  hashPair := fun left _ => left

/-- A node at time zero that has received nothing. -/
def bareNode : NodeLocal where
  fOkToGoFast := false
  isInitialBlockDownload := true
  time := 0
  adjustedTime := 0
  tipTime := 0
  sporks := fun _ => 0
  mapLockedInputs := fun _ => none

/-- Checks that have left nothing yet. -/
def bareChecks : CheckState where
  state := .initial
  zerocoinDB := .empty
  mapRejectedBlocks := fun _ => none

/-- A coinbase that pays one coin. -/
def bareCoinBase : CTransaction where
  hash := 7
  nVersion := 1
  vin := [{ prevout := .null, scriptSig := [0x01, 0x01], nSequence := 0 }]
  vout := [{ nValue := coin, scriptPubKey := [0x51] }]
  nLockTime := 0

/-- A block of that coinbase, with a target of `0xff` and a hash to choose. -/
def bareBlock (hash : Uint256) : CBlock where
  hash := hash
  nVersion := 3
  hashPrevBlock := 1
  hashMerkleRoot := 7
  nTime := 0
  nBits := 0x0200ff00
  nNonce := 0
  nAccumulatorCheckpoint := 0
  vtx := [bareCoinBase]
  vchBlockSig := []

end ColossusCoin
