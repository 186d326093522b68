import ColossusCoin.Chain.ForkStake
import ColossusCoin.Validation.SpendRecords

/-!
# Coinstakes on a fork and the unspent outputs

The outputs that are unspent after the transactions of a chain of blocks, from the oldest
block on.  An outpoint whose transaction is in no block of a branch is unspent at the end
of the branch when it was unspent before and no transaction of the branch spends it.
-/

namespace ColossusCoin

namespace CTransaction

/-- The outpoints that the transaction takes out of the unspent outputs. -/
def spentOutpoints (tx : CTransaction) : List COutPoint :=
  if tx.spendsNoCoins then [] else tx.prevouts

/-- The unspent outputs after a transaction.  Its own outputs replace whatever was under
its hash. -/
def applyTo (tx : CTransaction) (unspent : COutPoint → Bool) : COutPoint → Bool :=
  fun outpoint =>
    if outpoint.hash = tx.hash then (CCoins.fromTx tx 0).isAvailable outpoint.n
    else unspent outpoint && !tx.spentOutpoints.contains outpoint

end CTransaction

namespace CBlock

/-- The unspent outputs after the transactions of a block. -/
def applyTo (block : CBlock) (unspent : COutPoint → Bool) : COutPoint → Bool :=
  block.vtx.foldl (fun current tx => tx.applyTo current) unspent

/-- An input of a transaction of the block names the outpoint. -/
def Names (block : CBlock) (outpoint : COutPoint) : Prop :=
  ∃ tx ∈ block.vtx, outpoint ∈ tx.prevouts

/-- A transaction of the block spends the outpoint. -/
def Spends (block : CBlock) (outpoint : COutPoint) : Prop :=
  ∃ tx ∈ block.vtx, outpoint ∈ tx.spentOutpoints

/-- The block contains the transaction of the outpoint. -/
def Makes (block : CBlock) (outpoint : COutPoint) : Prop :=
  ∃ tx ∈ block.vtx, tx.hash = outpoint.hash

theorem Spends.names
    {block : CBlock}
    (spends : block.Spends outpoint) :
    block.Names outpoint := by
  obtain ⟨tx, member, spent⟩ := spends
  refine ⟨tx, member, ?_⟩
  unfold CTransaction.spentOutpoints at spent
  split_ifs at spent
  · cases spent
  · exact spent

end CBlock

theorem applyTo_eq_true_iff
    {txs : List CTransaction}
    (elsewhere : ∀ tx ∈ txs, tx.hash ≠ outpoint.hash)
    (unspent : COutPoint → Bool) :
    txs.foldl (fun current tx => tx.applyTo current) unspent outpoint = true ↔
      unspent outpoint = true ∧ ∀ tx ∈ txs, outpoint ∉ tx.spentOutpoints := by
  induction txs generalizing unspent with
  | nil => simp
  | cons tx rest ih =>
    have other : outpoint.hash ≠ tx.hash := fun same => elsewhere tx List.mem_cons_self same.symm
    rw [List.foldl_cons, ih fun later member =>
      elsewhere later (List.mem_cons_of_mem _ member), List.forall_mem_cons]
    unfold CTransaction.applyTo
    rw [if_neg other, Bool.and_eq_true, Bool.not_eq_true', List.contains_eq_mem,
      decide_eq_false_iff_not, and_assoc]

section Chain

variable (blockOf : Uint256 → CBlock)

/-- The unspent outputs as of the first block of a chain, which is listed from its newest
block down to the oldest. -/
def unspentAt (chain : List CBlockIndex) : COutPoint → Bool :=
  chain.foldr (fun index unspent => (blockOf index.hash).applyTo unspent) fun _ => false

/-- An outpoint of a transaction that a branch does not contain is unspent at the end of
the branch when it was unspent before and the branch does not spend it. -/
theorem unspentAt_append_iff
    {branch : List CBlockIndex}
    (elsewhere : ∀ index ∈ branch, ¬(blockOf index.hash).Makes outpoint)
    (below : List CBlockIndex) :
    unspentAt blockOf (branch ++ below) outpoint = true ↔
      unspentAt blockOf below outpoint = true ∧
        ∀ index ∈ branch, ¬(blockOf index.hash).Spends outpoint := by
  induction branch with
  | nil => simp
  | cons index rest ih =>
    have above := elsewhere index List.mem_cons_self
    have absent : ∀ tx ∈ (blockOf index.hash).vtx, tx.hash ≠ outpoint.hash :=
      fun tx member same => above ⟨tx, member, same⟩
    have earlier := ih fun other member =>
      elsewhere other (List.mem_cons_of_mem _ member)
    have unspends : ¬(blockOf index.hash).Spends outpoint ↔
        ∀ tx ∈ (blockOf index.hash).vtx, outpoint ∉ tx.spentOutpoints := by
      unfold CBlock.Spends
      simp
    change (blockOf index.hash).applyTo (unspentAt blockOf (rest ++ below)) outpoint = true ↔ _
    unfold CBlock.applyTo
    rw [applyTo_eq_true_iff absent, earlier, List.forall_mem_cons, unspends,
      and_right_comm, and_assoc]

end Chain

/-!
## What `AcceptBlock` finds of a coinstake on a fork

The walk over the branch finds the outpoints that inputs of its blocks name, and the
lookups at the tip find the outputs that are missing from a record of their transaction.
-/

/-- A coinstake names a real outpoint first, so it is no zerocoin spend. -/
theorem CTransaction.isZerocoinSpend_eq_false_of_isCoinStake
    {tx : CTransaction}
    (coinStake : tx.isCoinStake = true) :
    tx.isZerocoinSpend = false := by
  unfold CTransaction.isCoinStake at coinStake
  unfold CTransaction.isZerocoinSpend
  split at coinStake
  · rename_i txin _ _ _ _ inputs _
    rw [Bool.and_eq_true, Bool.not_eq_true'] at coinStake
    rw [inputs]
    dsimp only
    rw [coinStake.1, Bool.false_and]
  · cases coinStake

namespace CBlock

/-- A zerocoin input of the block names the serial. -/
def NamesSerial (lib : ZerocoinLib) (block : CBlock) (serial : CBigNum) : Prop :=
  ∃ tx ∈ block.vtx, ∃ txin ∈ tx.vin, txin.scriptSig.isZerocoinSpend = true ∧
    ∃ spend, lib.txInToZerocoinSpend txin = some spend ∧ spend.coinSerialNumber = serial

/-- Every zerocoin input of the block can be read. -/
def Decodes (lib : ZerocoinLib) (block : CBlock) : Prop :=
  ∀ tx ∈ block.vtx, ∀ txin ∈ tx.vin, txin.scriptSig.isZerocoinSpend = true →
    (lib.txInToZerocoinSpend txin).isSome = true

end CBlock

/-- A loop of the walk ends when it finds something, and passes otherwise with more
serials stored. -/
structure Walked (found : Prop) (stored : CBigNum → Prop) (before : List CBigNum)
    (state : CValidationState)
    (outcome : (Option Exit × CValidationState) × List CBigNum) : Prop where
  ends : found → outcome.1.1 ≠ none
  passes : ¬found → outcome.1 = (none, state)
  serials : ¬found → ∀ serial, serial ∈ outcome.2 ↔ serial ∈ before ∨ stored serial

theorem Walked.congr
    (walked : Walked found stored before state outcome)
    (sameFound : other ↔ found)
    (sameStored : ∀ serial, kept serial ↔ stored serial) :
    Walked other kept before state outcome where
  ends := fun present => walked.ends (sameFound.mp present)
  passes := fun absent => walked.passes fun present => absent (sameFound.mpr present)
  serials := fun absent serial => by
    rw [sameStored]
    exact walked.serials (fun present => absent (sameFound.mpr present)) serial

/-- Two loops, one after the other. -/
theorem Walked.andThen
    {next : List CBigNum → CValidationState →
      (Option Exit × CValidationState) × List CBigNum}
    (later : ∀ serials, Walked second secondStored serials state (next serials state)) :
    Walked first firstStored before state outcome →
      Walked (first ∨ second) (fun serial => firstStored serial ∨ secondStored serial)
        before state
        (match outcome with
        | ((some exit, failed), serials) => ((some exit, failed), serials)
        | ((none, passed), serials) => next serials passed) := by
  intro walked
  obtain ⟨⟨exit, passed⟩, serials⟩ := outcome
  by_cases here : first
  · have ended := walked.ends here
    cases exit with
    | none => exact absurd rfl ended
    | some exit =>
      exact ⟨fun _ => Option.some_ne_none exit, fun absent => absurd (Or.inl here) absent,
        fun absent => absurd (Or.inl here) absent⟩
  · have same := walked.passes here
    obtain ⟨rfl, rfl⟩ := same
    have held := later serials
    refine ⟨fun found => held.ends (found.resolve_left here),
      fun absent => held.passes fun found => absent (Or.inr found), ?_⟩
    intro absent serial
    rw [held.serials (fun found => absent (Or.inr found)), walked.serials here, or_assoc]

section Walk

/-- The input is a zerocoin input with the serial. -/
def InputSerial (lib : ZerocoinLib) (txin : CTxIn) (serial : CBigNum) : Prop :=
  txin.scriptSig.isZerocoinSpend = true ∧
    ∃ spend, lib.txInToZerocoinSpend txin = some spend ∧ spend.coinSerialNumber = serial

theorem walked_walkInput
    (decodes : txin.scriptSig.isZerocoinSpend = true →
      (env.connect.context.lib.txInToZerocoinSpend txin).isSome = true)
    (pivInputs : List CTxIn) (vBlockSerials : List CBigNum) (state : CValidationState) :
    Walked (∃ stakeIn ∈ pivInputs, stakeIn.prevout = txin.prevout)
      (fun serial => pivInputs ≠ [] ∧ InputSerial env.connect.context.lib txin serial)
      vBlockSerials state (walkInput env txin pivInputs vBlockSerials state) := by
  induction pivInputs generalizing vBlockSerials with
  | nil =>
    refine ⟨?_, fun _ => rfl, ?_⟩
    · rintro ⟨stakeIn, member, _⟩
      cases member
    · intro _ serial
      simp [walkInput]
  | cons stakeIn rest ih =>
    by_cases here : stakeIn.prevout = txin.prevout
    · unfold walkInput
      rw [if_pos here]
      have found : ∃ other ∈ stakeIn :: rest, other.prevout = txin.prevout :=
        ⟨stakeIn, List.mem_cons_self, here⟩
      exact ⟨fun _ => Option.some_ne_none _, fun absent => absurd found absent,
        fun absent => absurd found absent⟩
    · have sameFound : (∃ other ∈ stakeIn :: rest, other.prevout = txin.prevout) ↔
          ∃ other ∈ rest, other.prevout = txin.prevout := by
        simp [here]
      cases zerocoin : txin.scriptSig.isZerocoinSpend with
      | false =>
        have none : ∀ serial, ¬InputSerial env.connect.context.lib txin serial := by
          rintro serial ⟨spends, _⟩
          rw [zerocoin] at spends
          cases spends
        unfold walkInput
        rw [if_neg here, zerocoin]
        apply (ih vBlockSerials).congr sameFound
        simp [none]
      | true =>
        obtain ⟨spend, read⟩ := Option.isSome_iff_exists.mp (decodes zerocoin)
        have only : ∀ serial, InputSerial env.connect.context.lib txin serial ↔
            spend.coinSerialNumber = serial := by
          intro serial
          simp [InputSerial, zerocoin, read]
        have later := ih (vBlockSerials ++ [spend.coinSerialNumber])
        unfold walkInput
        rw [if_neg here, zerocoin, if_pos rfl, read]
        refine ⟨fun found => later.ends (sameFound.mp found),
          fun absent => later.passes fun found => absent (sameFound.mpr found), ?_⟩
        intro absent serial
        rw [later.serials (fun found => absent (sameFound.mpr found)), only,
          List.mem_append, List.mem_singleton]
        simp only [ne_eq, reduceCtorEq, not_false_eq_true, true_and]
        constructor
        · rintro ((held | same) | ⟨_, same⟩)
          · exact Or.inl held
          · exact Or.inr same.symm
          · exact Or.inr same
        · rintro (held | same)
          · exact Or.inl (Or.inl held)
          · exact Or.inl (Or.inr same.symm)

theorem walked_walkInputs
    {txins : List CTxIn}
    (decodes : ∀ txin ∈ txins, txin.scriptSig.isZerocoinSpend = true →
      (env.connect.context.lib.txInToZerocoinSpend txin).isSome = true)
    (pivInputs : List CTxIn) (vBlockSerials : List CBigNum) (state : CValidationState) :
    Walked (∃ txin ∈ txins, ∃ stakeIn ∈ pivInputs, stakeIn.prevout = txin.prevout)
      (fun serial => ∃ txin ∈ txins,
        pivInputs ≠ [] ∧ InputSerial env.connect.context.lib txin serial)
      vBlockSerials state (walkInputs env pivInputs txins vBlockSerials state) := by
  induction txins generalizing vBlockSerials with
  | nil =>
    refine ⟨?_, fun _ => rfl, ?_⟩
    · rintro ⟨txin, member, _⟩
      cases member
    · intro _ serial
      simp [walkInputs]
  | cons txin rest ih =>
    have first := walked_walkInput (decodes txin List.mem_cons_self) pivInputs vBlockSerials state
    have both := first.andThen fun serials =>
      ih (fun other member =>
        decodes other (List.mem_cons_of_mem _ member)) serials
    exact both.congr (by simp) (by simp)

theorem walked_walkBlock
    {bl : CBlock}
    (decodes : bl.Decodes env.connect.context.lib)
    (pivInputs : List CTxIn) (vBlockSerials : List CBigNum) (state : CValidationState) :
    Walked (∃ stakeIn ∈ pivInputs, bl.Names stakeIn.prevout)
      (fun serial => pivInputs ≠ [] ∧ bl.NamesSerial env.connect.context.lib serial)
      vBlockSerials state
      (walkInputs env pivInputs (bl.vtx.flatMap CTransaction.vin) vBlockSerials state) := by
  have walked := @walked_walkInputs env (bl.vtx.flatMap CTransaction.vin)
    (by
      intro txin member
      obtain ⟨tx, inBlock, inputs⟩ := List.mem_flatMap.mp member
      exact decodes tx inBlock txin inputs)
    pivInputs vBlockSerials state
  apply walked.congr
  · unfold CBlock.Names CTransaction.prevouts
    simp only [List.mem_flatMap, List.mem_map]
    constructor
    · rintro ⟨stakeIn, member, tx, inBlock, txin, inputs, same⟩
      exact ⟨txin, ⟨tx, inBlock, inputs⟩, stakeIn, member, same.symm⟩
    · rintro ⟨txin, ⟨tx, inBlock, inputs⟩, stakeIn, member, same⟩
      exact ⟨stakeIn, member, tx, inBlock, txin, inputs, same.symm⟩
  · intro serial
    simp only [List.mem_flatMap]
    constructor
    · rintro ⟨present, tx, inBlock, txin, inputs, zerocoin, spend⟩
      exact ⟨txin, ⟨tx, inBlock, inputs⟩, present, zerocoin, spend⟩
    · rintro ⟨txin, ⟨tx, inBlock, inputs⟩, present, zerocoin, spend⟩
      exact ⟨present, tx, inBlock, txin, inputs, zerocoin, spend⟩

/-- An input of a block of the branch names the outpoint of an input of the coinstake. -/
def BranchNames (blockOf : Uint256 → CBlock) (branch : List CBlockIndex)
    (pivInputs : List CTxIn) : Prop :=
  ∃ stakeIn ∈ pivInputs, ∃ index ∈ branch, (blockOf index.hash).Names stakeIn.prevout

/-- A zerocoin input of a block of the branch names the serial. -/
def BranchNamesSerial (lib : ZerocoinLib) (blockOf : Uint256 → CBlock)
    (branch : List CBlockIndex) (serial : CBigNum) : Prop :=
  ∃ index ∈ branch, (blockOf index.hash).NamesSerial lib serial

theorem branchNames_cons
    {pivInputs : List CTxIn} :
    BranchNames blockOf (prev :: rest) pivInputs ↔
      (∃ stakeIn ∈ pivInputs, (blockOf prev.hash).Names stakeIn.prevout) ∨
        BranchNames blockOf rest pivInputs := by
  constructor
  · rintro ⟨stakeIn, member, index, inBranch, names⟩
    rcases List.mem_cons.mp inBranch with rfl | inRest
    · exact Or.inl ⟨stakeIn, member, names⟩
    · exact Or.inr ⟨stakeIn, member, index, inRest, names⟩
  · rintro (⟨stakeIn, member, names⟩ | ⟨stakeIn, member, index, inRest, names⟩)
    · exact ⟨stakeIn, member, prev, List.mem_cons_self, names⟩
    · exact ⟨stakeIn, member, index, List.mem_cons_of_mem _ inRest, names⟩

/-- The walk over a branch that ends at the active chain: it ends early when it finds an
outpoint of the coinstake, and reaches the split otherwise. -/
theorem walked_walkBranch
    {readBlock : Nat}
    (nonempty : branch ≠ [])
    (offActive : ∀ index ∈ branch.tail, env.contains index = false)
    (onActive : env.contains split = true)
    (depth : (readBlock : Int) + branch.length ≤ env.nMaxReorganizationDepth)
    (onDisk : ∀ index ∈ branch, env.readBlockFromDisk index.hash = some (blockOf index.hash))
    (decodes : ∀ index ∈ branch, (blockOf index.hash).Decodes env.connect.context.lib)
    (below : List CBlockIndex) (pivInputs : List CTxIn) (vBlockSerials : List CBigNum)
    (state : CValidationState) :
    let outcome := walkBranch env pivInputs (branch ++ split :: below) readBlock vBlockSerials state
    Walked (BranchNames blockOf branch pivInputs)
        (fun serial => pivInputs ≠ [] ∧
          BranchNamesSerial env.connect.context.lib blockOf branch serial)
        vBlockSerials state (outcome.1, outcome.2.1) ∧
      (¬BranchNames blockOf branch pivInputs → outcome.2.2 = split.nHeight) := by
  induction branch generalizing readBlock vBlockSerials with
  | nil => exact absurd rfl nonempty
  | cons prev rest ih =>
    have first := walked_walkBlock (decodes prev List.mem_cons_self) pivInputs vBlockSerials state
    have shallow : ¬env.nMaxReorganizationDepth ≤ (readBlock : Int) := by
      rw [List.length_cons] at depth
      omega
    rw [List.cons_append, walkBranch, if_neg shallow, onDisk prev List.mem_cons_self]
    dsimp only
    generalize walkInputs env pivInputs ((blockOf prev.hash).vtx.flatMap CTransaction.vin)
      vBlockSerials state = outcome at first ⊢
    obtain ⟨⟨exit, passed⟩, serials⟩ := outcome
    by_cases here : ∃ stakeIn ∈ pivInputs, (blockOf prev.hash).Names stakeIn.prevout
    · have found : BranchNames blockOf (prev :: rest) pivInputs :=
        branchNames_cons.mpr (Or.inl here)
      have ended := first.ends here
      cases exit with
      | none => exact absurd rfl ended
      | some exit =>
        exact ⟨⟨fun _ => Option.some_ne_none exit, fun absent => absurd found absent,
          fun absent => absurd found absent⟩, fun absent => absurd found absent⟩
    · have same := first.passes here
      have stored := first.serials here
      obtain ⟨rfl, rfl⟩ := same
      have later : BranchNames blockOf (prev :: rest) pivInputs ↔
          BranchNames blockOf rest pivInputs := by
        rw [branchNames_cons, or_iff_right here]
      rw [later]
      cases rest with
      | nil =>
        have none : ¬BranchNames blockOf [] pivInputs := by
          rintro ⟨_, _, index, member, _⟩
          cases member
        dsimp only [List.nil_append]
        rw [if_pos onActive]
        refine ⟨⟨fun found => absurd found none, fun _ => rfl, ?_⟩, fun _ => rfl⟩
        intro _ serial
        rw [stored]
        simp [BranchNamesSerial]
      | cons next others =>
        have off : env.contains next = false := offActive next List.mem_cons_self
        have deeper := @ih (readBlock + 1) (List.cons_ne_nil next others)
          (fun index member => offActive index (List.mem_cons_of_mem _ member))
          (by
            rw [List.length_cons] at depth
            push_cast
            omega)
          (fun index member => onDisk index (List.mem_cons_of_mem _ member))
          (fun index member => decodes index (List.mem_cons_of_mem _ member)) serials
        dsimp only [List.cons_append] at deeper ⊢
        rw [if_neg (by rw [off]; simp)]
        obtain ⟨walked, height⟩ := deeper
        refine ⟨⟨walked.ends, walked.passes, ?_⟩, height⟩
        intro absent serial
        rw [walked.serials absent, stored]
        unfold BranchNamesSerial
        simp only [List.exists_mem_cons_iff]
        tauto

end Walk

end ColossusCoin
