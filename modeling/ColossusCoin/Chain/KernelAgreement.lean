import ColossusCoin.Chain.StakeKernel

/-!
# Where nodes agree on a proof of stake

Two nodes return the same verdict and the same hash for a block if they find the kernel's
transaction in the same block and their active chains run through the same entries from
there to the modifier.  A node whose active chain ends before it rejects the block, which
another node may accept.
-/

namespace ColossusCoin

/-- The first input of the coinstake of a block. -/
def CBlock.kernelInput (block : CBlock) : Option CTxIn :=
  match block.vtx with
  | _ :: tx :: _ => if tx.isCoinStake then tx.vin.head? else none
  | _ => none

theorem CBlock.kernelInput_eq
    {block : CBlock}
    (shape : block.vtx = first :: tx :: rest)
    (stake : tx.isCoinStake = true)
    (inputs : tx.vin = txin :: others) :
    block.kernelInput = some txin := by
  simp [kernelInput, shape, stake, inputs]

/-- What the check of a kernel reads: the transaction with the output, the block it is in
and the entries above that block on some chain. -/
structure KernelBlocks where
  txPrev : CTransaction
  blockFrom : CBlock
  pindexFrom : KernelIndex
  later : List KernelIndex

/-- An entry with a modifier of its own comes a selection interval after another one. -/
def ReachesModifier (pindexFrom : KernelIndex) (later : List KernelIndex) : Prop :=
  ∃ pindex ∈ later, pindex.generatedStakeModifier = true ∧
    pindexFrom.nTime + getStakeModifierSelectionInterval ≤ pindex.nTime

/-- A node finds a transaction in the block of a kernel, and its active chain runs through
the later entries of the kernel. -/
structure StakeNode.ReadsKernel (node : StakeNode) (txHash : Uint256)
    (kernel : KernelBlocks) : Prop where
  found : getTransaction node.store node.mempool txHash true =
    some (kernel.txPrev, kernel.pindexFrom.hash)
  indexed : node.mapBlockIndex kernel.pindexFrom.hash = some kernel.pindexFrom
  read : node.store.readBlockFromDisk kernel.pindexFrom.hash = some kernel.blockFrom
  named : kernel.blockFrom.hash = kernel.pindexFrom.hash
  follows : kernel.later <+: node.chainActive.drop (kernel.pindexFrom.nHeight + 1)
  reaches : ReachesModifier kernel.pindexFrom kernel.later

/-- Two nodes read the same kernel, or neither finds its transaction. -/
def AgreeOnKernel (node other : StakeNode) (txHash : Uint256) : Prop :=
  (getTransaction node.store node.mempool txHash true = none ∧
      getTransaction other.store other.mempool txHash true = none) ∨
    ∃ kernel, node.ReadsKernel txHash kernel ∧ other.ReadsKernel txHash kernel

/-- What comes after the modifier does not matter. -/
theorem findKernelModifier_append
    (reaches : nTimeStop ≤ nStakeModifierTime ∨
      ∃ entry ∈ later, entry.generatedStakeModifier = true ∧ nTimeStop ≤ entry.nTime)
    (rest : List KernelIndex) :
    findKernelModifier nTimeStop pindex nStakeModifierTime (later ++ rest) =
      findKernelModifier nTimeStop pindex nStakeModifierTime later := by
  induction later generalizing pindex nStakeModifierTime with
  | nil =>
    have reached : ¬ nStakeModifierTime < nTimeStop := by
      rcases reaches with now | ⟨entry, member, -⟩
      · omega
      · cases member
    cases rest with
    | nil => rfl
    | cons next others => simp [findKernelModifier, reached]
  | cons next others ih =>
    rw [List.cons_append]
    unfold findKernelModifier
    split_ifs with early generated
    · apply ih
      rcases reaches with now | ⟨entry, member, entryGenerated, late⟩
      · omega
      · rcases List.mem_cons.mp member with rfl | later
        · exact .inl late
        · exact .inr ⟨entry, later, entryGenerated, late⟩
    · apply ih
      rcases reaches with now | ⟨entry, member, entryGenerated, late⟩
      · omega
      · rcases List.mem_cons.mp member with rfl | later
        · exact absurd entryGenerated generated
        · exact .inr ⟨entry, later, entryGenerated, late⟩
    · rfl

theorem StakeNode.ReadsKernel.getKernelStakeModifier
    {node : StakeNode}
    (reads : node.ReadsKernel txHash kernel) :
    node.getKernelStakeModifier kernel.blockFrom.hash =
      (findKernelModifier (kernel.pindexFrom.nTime + getStakeModifierSelectionInterval)
        kernel.pindexFrom kernel.pindexFrom.nTime kernel.later).map KernelIndex.nStakeModifier := by
  obtain ⟨rest, chain⟩ := reads.follows
  rw [StakeNode.getKernelStakeModifier, reads.named, reads.indexed]
  dsimp only
  rw [← chain, findKernelModifier_append (.inr reads.reaches)]

/-- Two nodes that read the same kernel, at heights with the same minimal age, check it
alike. -/
theorem checkStakeKernelHash_agrees
    {node other : StakeNode}
    (reads : node.ReadsKernel txHash kernel)
    (otherReads : other.ReadsKernel txHash kernel)
    (sameAge : params.getMinStakeAge (node.height + 1) = params.getMinStakeAge (other.height + 1))
    (lib : KernelLib) (nBits : Nat) (prevout : COutPoint) (nTimeTx : Nat)
    (hashProofOfStake : Uint256) :
    node.checkStakeKernelHash params lib nBits kernel.blockFrom kernel.txPrev prevout nTimeTx
        hashProofOfStake =
      other.checkStakeKernelHash params lib nBits kernel.blockFrom kernel.txPrev prevout
        nTimeTx hashProofOfStake := by
  unfold StakeNode.checkStakeKernelHash
  rw [sameAge, reads.getKernelStakeModifier, otherReads.getKernelStakeModifier]

/-- The genesis entry of two branches. -/
def rootEntry : KernelIndex := ⟨1, 0, 0, 0, true⟩

/-- The entry after it on one branch, late enough for its modifier to apply. -/
def leftEntry : KernelIndex := ⟨2, 1, 3000, 7, true⟩

/-- The entry after it on the other branch, of the same time but without a modifier. -/
def rightEntry : KernelIndex := ⟨3, 1, 3000, 0, false⟩

/-- An entry after the left one. -/
def upperEntry : KernelIndex := ⟨5, 2, 3100, 8, true⟩

/-- A transaction of the genesis block with one output. -/
def stakedTx : CTransaction where
  hash := 11
  nVersion := 1
  vin := []
  vout := [{ nValue := 20000, scriptPubKey := [] }]
  nLockTime := 0

/-- The genesis block of the two branches. -/
def stakedBlock : CBlock where
  hash := 1
  nVersion := 4
  hashPrevBlock := 0
  hashMerkleRoot := 0
  nTime := 0
  nBits := 0x1f00ffff
  nNonce := 0
  nAccumulatorCheckpoint := 0
  vtx := [stakedTx]
  vchBlockSig := []

/-- A coinstake that spends the output of the genesis block. -/
def stakingTx : CTransaction where
  hash := 12
  nVersion := 1
  vin := [⟨⟨11, 0⟩, [], 0⟩]
  vout := [{ nValue := 0, scriptPubKey := [] }, { nValue := 20000, scriptPubKey := [1] }]
  nLockTime := 0

/-- A proof-of-stake block on the left branch. -/
def stakingBlock : CBlock where
  hash := 4
  nVersion := 4
  hashPrevBlock := 2
  hashMerkleRoot := 0
  nTime := 700000
  nBits := 0x1f00ffff
  nNonce := 0
  nAccumulatorCheckpoint := 0
  vtx := [stakedTx, stakingTx]
  vchBlockSig := []

/-- The index of a node that knows both branches. -/
def branchIndex (hash : Uint256) : Option KernelIndex :=
  [rootEntry, leftEntry, rightEntry, upperEntry].find? fun pindex => pindex.hash == hash

/-- A node that knows both branches and has a transaction index, with an active chain. -/
def branchNode (chainActive : List KernelIndex)
    (heights : ∀ (height : Nat) (pindex : KernelIndex),
      chainActive[height]? = some pindex → pindex.nHeight = height)
    (known : ∀ pindex ∈ chainActive, branchIndex pindex.hash = some pindex) : StakeNode where
  store :=
    { fTxIndex := true
      readTxIndex := fun _ => some ⟨1, 0⟩
      readTransaction := fun _ => some (stakedTx, 1)
      pcoinsTip := ⟨∅, 0, .db ∅ 0⟩
      chainActive := fun nHeight =>
        if 0 ≤ nHeight then chainActive[nHeight.toNat]?.map KernelIndex.hash else none
      readBlockFromDisk := fun _ => some stakedBlock }
  mempool := .empty false
  mapBlockIndex := branchIndex
  chainActive := chainActive
  nHeight_eq := heights
  chainActive_indexed := known
  store_chainActive height := by simp

theorem height_eq_of_branch
    (firstHeight : first.nHeight = 0)
    (secondHeight : second.nHeight = 1)
    (restHeight : rest = [] ∨ rest = [upperEntry])
    (height : Nat) (pindex : KernelIndex)
    (found : (first :: second :: rest)[height]? = some pindex) :
    pindex.nHeight = height := by
  rcases height with _ | _ | height
  · cases found
    exact firstHeight
  · cases found
    exact secondHeight
  · rcases restHeight with rfl | rfl
    · cases found
    · rcases height with _ | height
      · cases found
        rfl
      · cases found

/-- A node with the left branch active. -/
def leftNode : StakeNode :=
  branchNode [rootEntry, leftEntry] (height_eq_of_branch rfl rfl (.inl rfl)) (by decide)

/-- A node with the left branch active and one more entry on it. -/
def upperNode : StakeNode :=
  branchNode [rootEntry, leftEntry, upperEntry] (height_eq_of_branch rfl rfl (.inr rfl))
    (by decide)

/-- A node with the right branch active. -/
def rightNode : StakeNode :=
  branchNode [rootEntry, rightEntry] (height_eq_of_branch rfl rfl (.inl rfl)) (by decide)

/-- Every script is satisfied and every stake hashes to zero. -/
def easyKernel : KernelLib where
  verifyScript _ _ _ _ := true
  stakeHash _ _ _ _ _ := 0
  pastEnd _ _ := .null

end ColossusCoin
