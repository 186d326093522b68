import ColossusCoin.Chain.ForkStakeInputs

/-!
# When the check of a coinstake on a fork is exact

A proof-of-stake block on a fork is to be refused for its coinstake when an outpoint or a
serial of the coinstake is spent as of the parent.  The stage of `AcceptBlock` looks at
the names of outpoints on the branch, and at the coins of the tip, which say what is
missing from the records that are left there.
-/

namespace ColossusCoin

/-- A place for a block on a fork.  The ancestors of the block are a branch down to the
block where it splits from the active chain; the coins and the serials of the node are
those of its active chain. -/
structure StakeFork where
  env : StakeStageEnv
  /-- The block of an index entry. -/
  blockOf : Uint256 → CBlock
  /-- From the parent down; the parent itself may be on the active chain. -/
  branch : List CBlockIndex
  split : CBlockIndex
  below : List CBlockIndex
  /-- The active chain from its tip down to the split. -/
  main : List CBlockIndex
  nonempty : branch ≠ []
  ancestors : env.connect.ancestors = branch ++ split :: below
  active : env.chainActive = main ++ split :: below
  fromFork : env.isBlockFromFork = true
  offActive : ∀ index ∈ branch.tail, env.contains index = false
  heightsMain : ∀ index ∈ main, split.nHeight < index.nHeight
  heightsBelow : ∀ index ∈ split :: below, index.nHeight ≤ split.nHeight
  coins : ∀ outpoint, unspentAt blockOf env.chainActive outpoint =
    (env.pcoinsTip.accessCoins outpoint.hash).any fun coins => coins.isAvailable outpoint.n
  serials : ∀ serial height,
    env.connect.chain.isSerialInBlockchain env.zerocoinDB serial = some height ↔
      ∃ index ∈ env.chainActive, index.nHeight = height ∧
        serial ∈ serialsOf ((blockOf index.hash).spends
          env.connect.context.lib.txInToZerocoinSpend)

namespace StakeFork

variable (fork : StakeFork)

/-- `TxInToZerocoinSpend` of the node. -/
def readSpend (txin : CTxIn) : Option CoinSpend :=
  fork.env.connect.context.lib.txInToZerocoinSpend txin

/-- The outpoint is unspent as of the parent. -/
def Unspent (outpoint : COutPoint) : Prop :=
  unspentAt fork.blockOf fork.env.connect.ancestors outpoint = true

/-- A block of the chain spends the serial. -/
def SpendsSerial (chain : List CBlockIndex) (serial : CBigNum) : Prop :=
  ∃ index ∈ chain, serial ∈ serialsOf ((fork.blockOf index.hash).spends fork.readSpend)

/-- The transaction spends an outpoint or a serial that is spent as of the parent. -/
def Respends (stake : CTransaction) : Prop :=
  (∃ txin ∈ stake.pivInputs, ¬fork.Unspent txin.prevout) ∨
    ∃ txin ∈ stake.zPIVInputs, ∃ spend, fork.readSpend txin = some spend ∧
      fork.SpendsSerial fork.env.connect.ancestors spend.coinSerialNumber

/-- The tip holds a record of the transaction of the outpoint, from the split or below. -/
def HeldRecord (outpoint : COutPoint) : Prop :=
  ∃ coins, fork.env.pcoinsTip.accessCoins outpoint.hash = some coins ∧
    coins.nHeight ≤ fork.split.nHeight

/-- Such a record shows that the outpoint is spent at the tip. -/
def MissingAtTip (outpoint : COutPoint) : Prop :=
  fork.HeldRecord outpoint ∧
    unspentAt fork.blockOf fork.env.chainActive outpoint = false

/-- An input of a block of the branch names the outpoint. -/
def NamedOnBranch (outpoint : COutPoint) : Prop :=
  ∃ index ∈ fork.branch, (fork.blockOf index.hash).Names outpoint

/-- The outpoint of an ordinary input is taken for spent. -/
def TakenForSpent (outpoint : COutPoint) : Prop :=
  fork.NamedOnBranch outpoint ∨ fork.MissingAtTip outpoint

/-- The serial of the coinstake is taken for spent.  The serials of the branch are stored
for each ordinary input of the coinstake. -/
def SerialTakenForSpent (stake : CTransaction) (serial : CBigNum) : Prop :=
  (stake.pivInputs ≠ [] ∧
      BranchNamesSerial fork.env.connect.context.lib fork.blockOf fork.branch serial) ∨
    fork.SpendsSerial (fork.split :: fork.below) serial

/-- An input of the coinstake is taken for spent. -/
def Sees (stake : CTransaction) : Prop :=
  (∃ txin ∈ stake.pivInputs, fork.TakenForSpent txin.prevout) ∨
    ∃ txin ∈ stake.zPIVInputs, fork.MissingAtTip txin.prevout ∨
      ∃ spend, fork.readSpend txin = some spend ∧
        fork.SerialTakenForSpent stake spend.coinSerialNumber

/-- The block passes the rules of the stage that are not about spent inputs. -/
structure OtherRules (block : CBlock) (stake : CTransaction) (nHeight : Int) : Prop where
  inBlock : ∀ state, inBlockInputs fork.env stake nHeight block.inputs [] state =
    (none, state)
  depth : (fork.branch.length : Int) ≤ fork.env.nMaxReorganizationDepth
  onDisk : ∀ index ∈ fork.branch,
    fork.env.readBlockFromDisk index.hash = some (fork.blockOf index.hash)
  decodes : ∀ index ∈ fork.branch,
    (fork.blockOf index.hash).Decodes fork.env.connect.context.lib
  spends : ∀ txin ∈ stake.zPIVInputs, ∃ spend, fork.readSpend txin = some spend ∧
    serialInRange fork.env nHeight spend = true ∧
      ∃ value, fork.env.zerocoinDB.accumulators spend.accChecksum = some value ∧
        fork.env.connect.context.lib.verify txin value = true

variable {fork}

theorem contains_split : fork.env.contains fork.split = true := by
  unfold StakeStageEnv.contains
  rw [fork.active, List.any_eq_true]
  exact ⟨fork.split, List.mem_append_right _ List.mem_cons_self, beq_self_eq_true _⟩

theorem serialAtSplit_iff (serial : CBigNum) :
    ((fork.env.connect.chain.isSerialInBlockchain fork.env.zerocoinDB serial).any
        fun nHeightTx => nHeightTx ≤ fork.split.nHeight) = true ↔
      fork.SpendsSerial (fork.split :: fork.below) serial := by
  rw [Option.any_eq_true]
  constructor
  · rintro ⟨height, found, atSplit⟩
    obtain ⟨index, member, same, spent⟩ := (fork.serials serial height).mp found
    rw [fork.active, List.mem_append] at member
    refine ⟨index, member.resolve_left fun above => ?_, spent⟩
    have higher := fork.heightsMain index above
    rw [decide_eq_true_eq] at atSplit
    omega
  · rintro ⟨index, member, spent⟩
    refine ⟨index.nHeight, (fork.serials serial index.nHeight).mpr ?_, ?_⟩
    · refine ⟨index, ?_, rfl, spent⟩
      rw [fork.active]
      exact List.mem_append_right _ member
    · rw [decide_eq_true_eq]
      exact fork.heightsBelow index member

/-- The test at the tip takes an outpoint for spent. -/
theorem tipInput_passes_iff (txin : CTxIn) (state : CValidationState) :
    (tipInput fork.env true fork.split.nHeight txin state).1 = none ↔
      ¬fork.MissingAtTip txin.prevout := by
  have tip := fork.coins txin.prevout
  unfold tipInput MissingAtTip HeldRecord
  cases held : fork.env.pcoinsTip.accessCoins txin.prevout.hash with
  | none => simp
  | some coins =>
    rw [held] at tip
    rw [tip]
    dsimp only [Option.any_some]
    cases available : coins.isAvailable txin.prevout.n with
    | true => simp
    | false =>
      simp only [Bool.not_false, Bool.true_and, Bool.not_eq_true', decide_eq_false_iff_not,
        Option.some.injEq, exists_eq_left', and_true, not_lt, not_le]
      split_ifs with low
      · simp only [false_iff, not_lt]
        exact low
      · simp only [true_iff]
        omega

theorem tipInput_leaves
    (isBlockFromFork : Bool) (splitHeight : Int) (txin : CTxIn) (state : CValidationState) :
    (tipInput fork.env isBlockFromFork splitHeight txin state).2 = state := by
  unfold tipInput
  cases fork.env.pcoinsTip.accessCoins txin.prevout.hash with
  | none => dsimp only; split_ifs <;> rfl
  | some coins => dsimp only; split_ifs <;> rfl

/-- A zerocoin input of the coinstake passes when its serial is neither stored nor spent at
or below the split. -/
theorem forkSpend_passes_iff
    (rules : fork.OtherRules block stake nHeight)
    (member : txin ∈ stake.zPIVInputs)
    (vBlockSerials : List CBigNum) (state : CValidationState) :
    (forkSpend fork.env nHeight vBlockSerials fork.split.nHeight txin state).1 = none ↔
      ¬∃ spend, fork.readSpend txin = some spend ∧
        (spend.coinSerialNumber ∈ vBlockSerials ∨
          fork.SpendsSerial (fork.split :: fork.below) spend.coinSerialNumber) := by
  obtain ⟨spend, read, inRange, value, accumulated, verified⟩ := rules.spends txin member
  have readIt := read
  unfold readSpend at readIt
  have only : (∃ other, fork.readSpend txin = some other ∧
        (other.coinSerialNumber ∈ vBlockSerials ∨
          fork.SpendsSerial (fork.split :: fork.below) other.coinSerialNumber)) ↔
      spend.coinSerialNumber ∈ vBlockSerials ∨
        fork.SpendsSerial (fork.split :: fork.below) spend.coinSerialNumber := by
    simp [read]
  rw [only, ← serialAtSplit_iff]
  unfold forkSpend
  rw [readIt]
  dsimp only
  rw [inRange, accumulated]
  dsimp only
  rw [verified, List.contains_eq_mem]
  simp only [decide_eq_true_eq, Bool.not_true, Bool.false_eq_true, if_false, if_true]
  split_ifs with stored below
  · simp [stored]
  · simp [below]
  · simp [stored, below]

theorem forkSpend_leaves
    (nHeight : Int) (vBlockSerials : List CBigNum) (splitHeight : Int) (txin : CTxIn)
    (state : CValidationState)
    (passes : (forkSpend fork.env nHeight vBlockSerials splitHeight txin state).1 = none) :
    (forkSpend fork.env nHeight vBlockSerials splitHeight txin state).2 = state := by
  unfold forkSpend at passes ⊢
  cases read : fork.env.connect.context.lib.txInToZerocoinSpend txin with
  | none => rfl
  | some spend =>
    rw [read] at passes
    dsimp only at passes ⊢
    split_ifs at passes ⊢
    cases held : fork.env.zerocoinDB.accumulators spend.accChecksum with
    | none =>
      rw [held] at passes
      cases passes
    | some value =>
      rw [held] at passes
      dsimp only at passes ⊢
      split_ifs at passes ⊢
      rfl

theorem mem_vin_iff (stake : CTransaction) (txin : CTxIn) :
    txin ∈ stake.vin ↔ txin ∈ stake.pivInputs ∨ txin ∈ stake.zPIVInputs := by
  unfold CTransaction.pivInputs CTransaction.zPIVInputs
  cases zerocoin : txin.scriptSig.isZerocoinSpend <;> simp [zerocoin]

/-- Where the branch names no outpoint of the coinstake, what is seen is seen at the tip or
in the serials. -/
theorem sees_iff_of_unnamed
    (unnamed : ¬BranchNames fork.blockOf fork.branch stake.pivInputs) :
    fork.Sees stake ↔
      (∃ txin ∈ stake.vin, fork.MissingAtTip txin.prevout) ∨
        ∃ txin ∈ stake.zPIVInputs, ∃ spend, fork.readSpend txin = some spend ∧
          fork.SerialTakenForSpent stake spend.coinSerialNumber := by
  constructor
  · rintro (⟨txin, member, named | missing⟩ | ⟨txin, member, missing | serial⟩)
    · exact absurd ⟨txin, member, named⟩ unnamed
    · exact Or.inl ⟨txin, (mem_vin_iff stake txin).mpr (Or.inl member), missing⟩
    · exact Or.inl ⟨txin, (mem_vin_iff stake txin).mpr (Or.inr member), missing⟩
    · exact Or.inr ⟨txin, member, serial⟩
  · rintro (⟨txin, member, missing⟩ | ⟨txin, member, serial⟩)
    · rcases (mem_vin_iff stake txin).mp member with ordinary | zerocoin
      · exact Or.inl ⟨txin, ordinary, Or.inr missing⟩
      · exact Or.inr ⟨txin, zerocoin, Or.inl missing⟩
    · exact Or.inr ⟨txin, member, Or.inr serial⟩

/-- On a fork, a block that passes the other rules passes the stage exactly when no input
of its coinstake is taken for spent. -/
theorem stakeStage_passes_iff
    (transactions : block.vtx = first :: stake :: rest)
    (proofOfStake : block.isProofOfStake = true)
    (rules : fork.OtherRules block stake nHeight)
    (state : CValidationState) :
    (stakeStage fork.env block nHeight state).1 = none ↔ ¬fork.Sees stake := by
  have coinStake : stake.isCoinStake = true := by
    unfold CBlock.isProofOfStake at proofOfStake
    rw [transactions] at proofOfStake
    exact proofOfStake
  have ordinary := CTransaction.isZerocoinSpend_eq_false_of_isCoinStake coinStake
  have atTip := @Stage.forEach_passes_iff CValidationState CTxIn
    (tipInput fork.env true fork.split.nHeight) stake.vin state
    fun txin _ _ => tipInput_leaves true fork.split.nHeight txin state
  have shallow : ((0 : Nat) : Int) + fork.branch.length ≤ fork.env.nMaxReorganizationDepth := by
    have depth := rules.depth
    omega
  obtain ⟨walked, height⟩ := walked_walkBranch fork.nonempty fork.offActive contains_split
    shallow rules.onDisk rules.decodes fork.below stake.pivInputs [] state
  unfold stakeStage
  rw [transactions]
  dsimp only
  rw [proofOfStake, rules.inBlock, fork.fromFork]
  simp only [Bool.not_true, Bool.false_eq_true, if_false, if_true]
  unfold forkStage
  rw [fork.ancestors]
  generalize walkBranch fork.env stake.pivInputs (fork.branch ++ fork.split :: fork.below) 0 []
    state = outcome at walked height ⊢
  obtain ⟨⟨exit, passed⟩, serials, splitHeight⟩ := outcome
  by_cases named : BranchNames fork.blockOf fork.branch stake.pivInputs
  · have ended := walked.ends named
    have sees : fork.Sees stake := by
      obtain ⟨txin, member, index, inBranch, names⟩ := named
      exact Or.inl ⟨txin, member, Or.inl ⟨index, inBranch, names⟩⟩
    cases exit with
    | none => exact absurd rfl ended
    | some exit => simp [sees]
  · have same := walked.passes named
    have stored := walked.serials named
    have splits := height named
    simp only [Prod.mk.injEq] at same
    obtain ⟨rfl, rfl⟩ := same
    subst splits
    have seesIff : fork.Sees stake ↔
        (∃ txin ∈ stake.vin, fork.MissingAtTip txin.prevout) ∨
          ∃ txin ∈ stake.zPIVInputs, ∃ spend, fork.readSpend txin = some spend ∧
            (spend.coinSerialNumber ∈ serials ∨
              fork.SpendsSerial (fork.split :: fork.below) spend.coinSerialNumber) := by
      rw [sees_iff_of_unnamed named]
      simp [SerialTakenForSpent, stored]
    have spending := @Stage.forEach_passes_iff CValidationState CTxIn
      (forkSpend fork.env nHeight serials fork.split.nHeight) stake.zPIVInputs passed
      fun txin _ => forkSpend_leaves nHeight serials fork.split.nHeight txin passed
    have serialsPass : (Stage.forEach (forkSpend fork.env nHeight serials
          fork.split.nHeight) stake.zPIVInputs passed).1 = none ↔
        ¬∃ txin ∈ stake.zPIVInputs, ∃ spend, fork.readSpend txin = some spend ∧
          (spend.coinSerialNumber ∈ serials ∨
            fork.SpendsSerial (fork.split :: fork.below) spend.coinSerialNumber) := by
      rw [spending]
      push Not
      refine forall₂_congr fun txin member => ?_
      rw [forkSpend_passes_iff rules member]
      push Not
      rfl
    rw [seesIff, not_or, ← serialsPass]
    have left := @Stage.forEach_eq_of_passes CValidationState CTxIn
      (forkSpend fork.env nHeight serials fork.split.nHeight) stake.zPIVInputs passed
      fun txin _ => forkSpend_leaves nHeight serials fork.split.nHeight txin passed
    unfold tipStage
    rw [ordinary]
    simp only [Bool.not_false, if_true]
    generalize Stage.forEach (forkSpend fork.env nHeight serials fork.split.nHeight)
      stake.zPIVInputs passed = outcome at left ⊢
    obtain ⟨exit, next⟩ := outcome
    cases exit with
    | some exit => simp
    | none =>
      have same := left rfl
      simp only [Prod.mk.injEq, true_and] at same
      subst same
      rw [atTip, and_iff_left rfl]
      push Not
      exact forall₂_congr fun txin _ => tipInput_passes_iff txin next

variable (fork)

/-- The outpoint of an ordinary input is spent as of the parent, and not seen to be. -/
def Overlooked (outpoint : COutPoint) : Prop :=
  ¬fork.Unspent outpoint ∧ ¬fork.TakenForSpent outpoint

/-- The outpoint of an ordinary input is unspent as of the parent, and taken for spent. -/
def FalselyTaken (outpoint : COutPoint) : Prop :=
  fork.Unspent outpoint ∧ fork.TakenForSpent outpoint

/-- A serial is spent as of the parent, and not seen to be. -/
def SerialOverlooked (stake : CTransaction) (serial : CBigNum) : Prop :=
  fork.SpendsSerial fork.env.connect.ancestors serial ∧
    ¬fork.SerialTakenForSpent stake serial

/-- A serial is unspent as of the parent, and taken for spent. -/
def SerialFalselyTaken (stake : CTransaction) (serial : CBigNum) : Prop :=
  ¬fork.SpendsSerial fork.env.connect.ancestors serial ∧
    fork.SerialTakenForSpent stake serial

/-- Something of the coinstake is taken for spent though it is not, or though it is only
named beside a serial. -/
def SomeFalselyTaken (stake : CTransaction) : Prop :=
  (∃ txin ∈ stake.pivInputs, fork.FalselyTaken txin.prevout) ∨
    ∃ txin ∈ stake.zPIVInputs, fork.MissingAtTip txin.prevout ∨
      ∃ spend, fork.readSpend txin = some spend ∧
        fork.SerialFalselyTaken stake spend.coinSerialNumber

/-- All that is spent of the coinstake is overlooked. -/
def AllOverlooked (stake : CTransaction) : Prop :=
  (∀ txin ∈ stake.pivInputs, ¬fork.Unspent txin.prevout → fork.Overlooked txin.prevout) ∧
    ∀ txin ∈ stake.zPIVInputs, ∀ spend, fork.readSpend txin = some spend →
      fork.SpendsSerial fork.env.connect.ancestors spend.coinSerialNumber →
        fork.SerialOverlooked stake spend.coinSerialNumber

variable {fork}

/-- What is seen is spent, unless something is taken for spent falsely. -/
theorem sees_iff (stake : CTransaction) :
    fork.Sees stake ↔ fork.SomeFalselyTaken stake ∨ ¬fork.AllOverlooked stake := by
  constructor
  · rintro (⟨txin, member, taken⟩ | ⟨txin, member, missing | ⟨spend, read, taken⟩⟩)
    · by_cases unspent : fork.Unspent txin.prevout
      · exact Or.inl (Or.inl ⟨txin, member, unspent, taken⟩)
      · exact Or.inr fun overlooked => (overlooked.1 txin member unspent).2 taken
    · exact Or.inl (Or.inr ⟨txin, member, Or.inl missing⟩)
    · by_cases spent : fork.SpendsSerial fork.env.connect.ancestors spend.coinSerialNumber
      · exact Or.inr fun overlooked => (overlooked.2 txin member spend read spent).2 taken
      · exact Or.inl (Or.inr ⟨txin, member, Or.inr ⟨spend, read, spent, taken⟩⟩)
  · rintro (falsely | seen)
    · rcases falsely with ⟨txin, member, _, taken⟩ |
        ⟨txin, member, missing | ⟨spend, read, _, taken⟩⟩
      · exact Or.inl ⟨txin, member, taken⟩
      · exact Or.inr ⟨txin, member, Or.inl missing⟩
      · exact Or.inr ⟨txin, member, Or.inr ⟨spend, read, taken⟩⟩
    · by_contra unseen
      apply seen
      constructor
      · intro txin member spent
        exact ⟨spent, fun taken => unseen (Or.inl ⟨txin, member, taken⟩)⟩
      · intro txin member spend read spent
        exact ⟨spent, fun taken =>
          unseen (Or.inr ⟨txin, member, Or.inr ⟨spend, read, taken⟩⟩)⟩

/-- The transaction of the outpoint is neither on the branch nor on the active chain above
the split. -/
def MadeBelow (fork : StakeFork) (outpoint : COutPoint) : Prop :=
  ∀ index, index ∈ fork.branch ∨ index ∈ fork.main →
    ¬(fork.blockOf index.hash).Makes outpoint

/-- A block of the blocks spends the outpoint. -/
def SpentBy (fork : StakeFork) (blocks : List CBlockIndex) (outpoint : COutPoint) : Prop :=
  ∃ index ∈ blocks, (fork.blockOf index.hash).Spends outpoint

/-- The outpoint is unspent as of the split. -/
def UnspentAtSplit (fork : StakeFork) (outpoint : COutPoint) : Prop :=
  unspentAt fork.blockOf (fork.split :: fork.below) outpoint = true

theorem unspent_iff
    (below : fork.MadeBelow outpoint) :
    fork.Unspent outpoint ↔
      fork.UnspentAtSplit outpoint ∧ ¬fork.SpentBy fork.branch outpoint := by
  unfold Unspent UnspentAtSplit SpentBy
  rw [fork.ancestors, unspentAt_append_iff fork.blockOf
    fun index member => below index (Or.inl member)]
  push Not
  rfl

theorem missingAtTip_iff
    (below : fork.MadeBelow outpoint) :
    fork.MissingAtTip outpoint ↔ fork.HeldRecord outpoint ∧
      (fork.UnspentAtSplit outpoint → fork.SpentBy fork.main outpoint) := by
  unfold MissingAtTip UnspentAtSplit SpentBy
  rw [fork.active, ← Bool.not_eq_true, unspentAt_append_iff fork.blockOf
    fun index member => below index (Or.inr member)]
  push Not
  rfl

/-- An output from below is overlooked when it was spent, or missing, at the split already,
and the tip holds no record of its transaction. -/
theorem overlooked_iff
    (below : fork.MadeBelow outpoint) :
    fork.Overlooked outpoint ↔
      ¬fork.UnspentAtSplit outpoint ∧ ¬fork.NamedOnBranch outpoint ∧
        ¬fork.HeldRecord outpoint := by
  have named : fork.SpentBy fork.branch outpoint → fork.NamedOnBranch outpoint :=
    fun ⟨index, member, spends⟩ => ⟨index, member, spends.names⟩
  unfold Overlooked TakenForSpent
  rw [unspent_iff below, missingAtTip_iff below]
  tauto

/-- An output from below is falsely taken for spent when it was unspent at the split, the
branch does not spend it, and the active chain spends it while the tip still holds a
record of its transaction; or when a transaction of the branch names it without spending
it. -/
theorem falselyTaken_iff
    (below : fork.MadeBelow outpoint) :
    fork.FalselyTaken outpoint ↔
      fork.UnspentAtSplit outpoint ∧ ¬fork.SpentBy fork.branch outpoint ∧
        (fork.NamedOnBranch outpoint ∨
          fork.HeldRecord outpoint ∧ fork.SpentBy fork.main outpoint) := by
  unfold FalselyTaken TakenForSpent
  rw [unspent_iff below, missingAtTip_iff below]
  tauto

theorem namesSerial_of_spends
    {block : CBlock}
    (spent : serial ∈ serialsOf (block.spends lib.txInToZerocoinSpend)) :
    block.NamesSerial lib serial := by
  obtain ⟨⟨found, hash⟩, member, rfl⟩ := List.mem_map.mp spent
  obtain ⟨tx, inBlock, spends⟩ := List.mem_flatMap.mp member
  unfold CTransaction.spends at spends
  split_ifs at spends
  · obtain ⟨txin, input, mapped⟩ := List.mem_filterMap.mp spends
    obtain ⟨spend, read, same⟩ := Option.map_eq_some_iff.mp mapped
    simp only [Prod.mk.injEq] at same
    obtain ⟨inputs, zerocoin⟩ := List.mem_filter.mp input
    exact ⟨tx, inBlock, txin, inputs, zerocoin, spend, read, same.1⟩
  · cases spends

/-- A serial is overlooked when only the branch spends it, and the coinstake has no
ordinary input. -/
theorem serialOverlooked_iff (stake : CTransaction) (serial : CBigNum) :
    fork.SerialOverlooked stake serial ↔
      fork.SpendsSerial fork.branch serial ∧
        ¬fork.SpendsSerial (fork.split :: fork.below) serial ∧ stake.pivInputs = [] := by
  have split : fork.SpendsSerial fork.env.connect.ancestors serial ↔
      fork.SpendsSerial fork.branch serial ∨
        fork.SpendsSerial (fork.split :: fork.below) serial := by
    unfold SpendsSerial
    rw [fork.ancestors]
    simp [or_and_right, exists_or]
  have named : fork.SpendsSerial fork.branch serial →
      BranchNamesSerial fork.env.connect.context.lib fork.blockOf fork.branch serial :=
    fun ⟨index, member, spent⟩ => ⟨index, member, namesSerial_of_spends spent⟩
  unfold SerialOverlooked SerialTakenForSpent
  rw [split]
  tauto

end StakeFork

/-- On a fork, a block that passes the other rules of the stage is refused exactly when its
coinstake spends something that is spent as of its parent, if and only if nothing is
falsely taken for spent where it does not, and not all of it is overlooked where it does.
For outputs from the split or below, and for serials, it is said what these are. -/
theorem stakeStage_exact_iff
    (fork : StakeFork) {block : CBlock} {first stake : CTransaction}
    {rest : List CTransaction} {nHeight : Int}
    (transactions : block.vtx = first :: stake :: rest)
    (proofOfStake : block.isProofOfStake = true)
    (rules : fork.OtherRules block stake nHeight)
    (state : CValidationState) :
    (((stakeStage fork.env block nHeight state).1 ≠ none ↔ fork.Respends stake) ↔
        (¬fork.Respends stake → ¬fork.SomeFalselyTaken stake) ∧
          (fork.Respends stake →
            fork.SomeFalselyTaken stake ∨ ¬fork.AllOverlooked stake)) ∧
      (∀ outpoint, fork.MadeBelow outpoint →
        (fork.FalselyTaken outpoint ↔
          fork.UnspentAtSplit outpoint ∧ ¬fork.SpentBy fork.branch outpoint ∧
            (fork.NamedOnBranch outpoint ∨
              fork.HeldRecord outpoint ∧ fork.SpentBy fork.main outpoint)) ∧
          (fork.Overlooked outpoint ↔
            ¬fork.UnspentAtSplit outpoint ∧ ¬fork.NamedOnBranch outpoint ∧
              ¬fork.HeldRecord outpoint)) ∧
      ∀ serial, fork.SerialOverlooked stake serial ↔
        fork.SpendsSerial fork.branch serial ∧
          ¬fork.SpendsSerial (fork.split :: fork.below) serial ∧ stake.pivInputs = [] := by
  refine ⟨?_, fun outpoint below =>
    ⟨StakeFork.falselyTaken_iff below, StakeFork.overlooked_iff below⟩,
    StakeFork.serialOverlooked_iff stake⟩
  have refused : (stakeStage fork.env block nHeight state).1 ≠ none ↔ fork.Sees stake := by
    rw [ne_eq, StakeFork.stakeStage_passes_iff transactions proofOfStake rules, not_not]
  have unspent : ¬fork.Respends stake → fork.AllOverlooked stake := by
    intro fresh
    constructor
    · intro txin member spent
      exact absurd (Or.inl ⟨txin, member, spent⟩) fresh
    · intro txin member spend read spent
      exact absurd (Or.inr ⟨txin, member, spend, read, spent⟩) fresh
  rw [refused, StakeFork.sees_iff]
  by_cases respends : fork.Respends stake
  · simp [respends]
  · simp [respends, unspent respends]

namespace OneBlockFork

/-- A transaction whose inputs name outpoints, with an output that cannot be spent. -/
def burnTx (hash : Uint256) (prevouts : List COutPoint) : CTransaction where
  hash := hash
  nVersion := 1
  vin := prevouts.map fun prevout =>
    { prevout := prevout, scriptSig := [0x01, 0x01], nSequence := 0 }
  vout := [{ nValue := coin, scriptPubKey := [Opcode.opReturn] }]
  nLockTime := 0

/-- A transaction of a number of spendable outputs. -/
def sourceTx (hash : Uint256) (outputs : Nat) : CTransaction :=
  { burnTx hash [.null] with
    vout := List.replicate outputs { nValue := coin, scriptPubKey := [0x51] } }

/-- The blocks: two transactions to spend from at the bottom, the split, which spends all
of the second one, the block of the active chain, which spends one output of the first,
and the block of the branch. -/
def blockOf : Uint256 → CBlock := fun hash =>
  { bareBlock hash with
    vtx :=
      if hash = 100 then [sourceTx 3 2, sourceTx 4 1]
      else if hash = 101 then [burnTx 5 [⟨4, 0⟩]]
      else if hash = 102 then [burnTx 6 [⟨3, 0⟩]]
      else [burnTx 7 [.null]] }

/-- The index entry of a block. -/
def indexOf (hash : Uint256) (nHeight : Int) : CBlockIndex :=
  .ofBlock (blockOf hash) nHeight

/-- What the tip holds: the first transaction with one output left. -/
def tipCoins : CCoins where
  fCoinBase := true
  fCoinStake := false
  vout := [.null, { nValue := coin, scriptPubKey := [0x51] }]
  nHeight := 0
  nVersion := 1

/-- A node whose tip is the block of the active chain. -/
def env : StakeStageEnv where
  connect :=
    { bareEnv with
      node := { bareNode with sporks := fun _ => 100 }
      ancestors := [indexOf 103 2, indexOf 101 1, indexOf 100 0] }
  zerocoinDB := .empty
  pcoinsTip := .overSingle 3 tipCoins 102
  chainActive := [indexOf 102 2, indexOf 101 1, indexOf 100 0]
  readBlockFromDisk := fun hash => some (blockOf hash)

/-- A coinstake that spends an outpoint. -/
def stakeTx (prevout : COutPoint) : CTransaction :=
  { burnTx 9 [prevout] with
    vout :=
      [ { nValue := 0, scriptPubKey := [] },
        { nValue := coin, scriptPubKey := [0x51] } ] }

/-- A block on the branch with that coinstake. -/
def stakeBlock (prevout : COutPoint) : CBlock :=
  { bareBlock 104 with vtx := [burnTx 8 [.null], stakeTx prevout] }

theorem unspentAt_active (outpoint : COutPoint) :
    unspentAt blockOf env.chainActive outpoint =
      (env.pcoinsTip.accessCoins outpoint.hash).any fun coins =>
        coins.isAvailable outpoint.n := by
  obtain ⟨hash, n⟩ := outpoint
  by_cases first : hash = 3
  · subst first
    rcases n with _ | _ | n
    · decide
    · decide
    · rfl
  have unheld : env.pcoinsTip.accessCoins hash = none := by
    unfold env CCoinsViewCache.accessCoins
    simp only [CCoinsViewCache.overSingle, CCoinsViewCache.toView, CCoinsView.getCoins,
      AList.lookup_empty, ← AList.insert_empty, AList.lookup_insert_ne first]
    rfl
  rw [unheld]
  by_cases second : hash = 4
  · subst second
    rcases n with _ | n
    · decide
    · rfl
  by_cases burnt : hash = 5 ∨ hash = 6
  · rcases burnt with rfl | rfl
    · rfl
    · rfl
  · have absent : ∀ index ∈ env.chainActive, ¬(blockOf index.hash).Makes ⟨hash, n⟩ := by
      rw [not_or] at burnt
      intro index member
      simp only [env, List.mem_cons, List.not_mem_nil, or_false] at member
      rcases member with rfl | rfl | rfl
      · rintro ⟨tx, inBlock, same⟩
        simp [indexOf, CBlockIndex.ofBlock, blockOf, bareBlock] at inBlock
        subst inBlock
        exact burnt.2 same.symm
      · rintro ⟨tx, inBlock, same⟩
        simp [indexOf, CBlockIndex.ofBlock, blockOf, bareBlock] at inBlock
        subst inBlock
        exact burnt.1 same.symm
      · rintro ⟨tx, inBlock, same⟩
        simp [indexOf, CBlockIndex.ofBlock, blockOf, bareBlock] at inBlock
        rcases inBlock with rfl | rfl
        · exact first same.symm
        · exact second same.symm
    have nowhere := unspentAt_append_iff blockOf absent []
    rw [List.append_nil] at nowhere
    simpa [unspentAt] using nowhere

/-- The fork of the block of the branch. -/
def fork : StakeFork where
  env := env
  blockOf := blockOf
  branch := [indexOf 103 2]
  split := indexOf 101 1
  below := [indexOf 100 0]
  main := [indexOf 102 2]
  nonempty := List.cons_ne_nil _ _
  ancestors := rfl
  active := rfl
  fromFork := by decide
  offActive := by simp
  heightsMain := by decide
  heightsBelow := by decide
  coins := unspentAt_active
  serials := by
    intro serial height
    have unknown : env.connect.chain.isSerialInBlockchain env.zerocoinDB serial = none := rfl
    have unspent : ∀ hash, (blockOf hash).spends env.connect.context.lib.txInToZerocoinSpend =
        [] := by
      intro hash
      unfold blockOf
      split_ifs <;> rfl
    rw [unknown]
    simp [unspent, serialsOf]

/-- A block that spends the output left at the tip passes the other rules. -/
theorem otherRules_unspentOutput :
    fork.OtherRules (stakeBlock ⟨3, 1⟩) (stakeTx ⟨3, 1⟩) 3 where
  inBlock := fun _ => rfl
  depth := by decide
  onDisk := fun _ _ => rfl
  decodes := by
    intro index member tx inBlock txin input zerocoin
    simp only [fork, List.mem_singleton] at member
    subst member
    have only : tx = burnTx 7 [.null] := by
      simpa [fork, indexOf, CBlockIndex.ofBlock, blockOf, bareBlock] using inBlock
    subst only
    have script : txin.scriptSig = [0x01, 0x01] := by
      simp only [burnTx, List.map_cons, List.map_nil, List.mem_singleton] at input
      rw [input]
    rw [script] at zerocoin
    exact absurd zerocoin (by decide)
  spends := by
    intro txin member
    cases member

end OneBlockFork

/-- The output that the active chain leaves unspent is neither spent as of the parent, nor
taken for spent. -/
theorem stakeStage_exact_iff_unspentOutput :
    (stakeStage OneBlockFork.env (OneBlockFork.stakeBlock ⟨3, 1⟩) 3 .initial).1 = none ∧
      ((stakeStage OneBlockFork.env (OneBlockFork.stakeBlock ⟨3, 1⟩) 3 .initial).1 ≠
          none ↔
        OneBlockFork.fork.Respends (OneBlockFork.stakeTx ⟨3, 1⟩)) := by
  have rules := OneBlockFork.otherRules_unspentOutput
  have unspent : ¬OneBlockFork.fork.Respends (OneBlockFork.stakeTx ⟨3, 1⟩) := by
    rintro (⟨txin, member, spent⟩ | ⟨txin, member, _⟩)
    · have only : txin.prevout = ⟨3, 1⟩ := by
        have inputs : (OneBlockFork.stakeTx ⟨3, 1⟩).pivInputs =
            (OneBlockFork.stakeTx ⟨3, 1⟩).vin := by decide
        rw [inputs] at member
        simp only [OneBlockFork.stakeTx, OneBlockFork.burnTx, List.map_cons, List.map_nil,
          List.mem_singleton] at member
        rw [member]
      rw [only] at spent
      unfold StakeFork.Unspent at spent
      exact spent (by decide)
    · cases member
  have passes : (stakeStage OneBlockFork.env (OneBlockFork.stakeBlock ⟨3, 1⟩) 3
      .initial).1 = none := by decide
  have exactly := (stakeStage_exact_iff OneBlockFork.fork rfl
    (by decide : (OneBlockFork.stakeBlock ⟨3, 1⟩).isProofOfStake = true) rules
    .initial).1
  refine ⟨passes, exactly.mpr ⟨fun _ falsely => ?_, ?_⟩⟩
  swap
  · exact fun respends => absurd respends unspent
  have sees := (StakeFork.sees_iff _).mpr (Or.inl falsely)
  exact ((StakeFork.stakeStage_passes_iff rfl (by decide) rules .initial).mp passes) sees

/-- A coinstake whose output was spent at the split, with no record left at the tip, passes
the stage; and one whose output only the active chain spends after the split is refused. -/
theorem stakeStage_overlooks_and_refuses :
    let passed := OneBlockFork.stakeBlock ⟨4, 0⟩
    let refused := OneBlockFork.stakeBlock ⟨3, 0⟩
    unspentAt OneBlockFork.blockOf OneBlockFork.env.connect.ancestors ⟨4, 0⟩ = false ∧
      (stakeStage OneBlockFork.env passed 3 .initial).1 = none ∧
      unspentAt OneBlockFork.blockOf OneBlockFork.env.connect.ancestors ⟨3, 0⟩ = true ∧
      (stakeStage OneBlockFork.env refused 3 .initial).1 = some .reject := by
  decide

end ColossusCoin
