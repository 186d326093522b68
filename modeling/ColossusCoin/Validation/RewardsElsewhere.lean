import ColossusCoin.Validation.ConnectElsewhere

/-!
# The stages around the loop on another node

Before the transactions of a block only the limit on their number is a node's own, and
after them the payments it asks for and, up to the eighth height, the value it allows.
-/

namespace ColossusCoin

theorem subtractSpends_withFiles
    (spends : List CoinDenomination) (pindex files : CBlockIndex) :
    CBlockIndex.subtractSpends spends (pindex.withFiles files) =
      ((CBlockIndex.subtractSpends spends pindex).1,
        (CBlockIndex.subtractSpends spends pindex).2.withFiles files) := by
  induction spends generalizing pindex with
  | nil => rfl
  | cons denomination rest ih =>
    unfold CBlockIndex.subtractSpends
    dsimp only
    have counted : (pindex.withFiles files).addSupply denomination (-1) =
        (pindex.addSupply denomination (-1)).withFiles files := rfl
    have supply : ∀ entry : CBlockIndex,
        (entry.withFiles files).mapZerocoinSupply = entry.mapZerocoinSupply :=
      fun _ => rfl
    rw [counted, supply, ih]
    split_ifs <;> rfl

theorem addMints_withFiles (mints : List PublicCoin) (pindex files : CBlockIndex) :
    mints.foldl CBlockIndex.addMint (pindex.withFiles files) =
      (mints.foldl CBlockIndex.addMint pindex).withFiles files := by
  induction mints generalizing pindex with
  | nil => rfl
  | cons pubCoin rest ih =>
    exact ih (pindex.addMint pubCoin)

/-- The supply does not depend on where the files of a block are. -/
theorem updateZPIVSupply_withFiles
    (params : CChainParams) (lib : ZerocoinLib) (fraud : FraudMaps) (block : CBlock)
    (pprev : Option CBlockIndex) (pindex files : CBlockIndex) :
    updateZPIVSupply params lib fraud block pprev (pindex.withFiles files) =
      ((updateZPIVSupply params lib fraud block pprev pindex).1,
        (updateZPIVSupply params lib fraud block pprev pindex).2.withFiles files) := by
  have started : ((pindex.withFiles files).inheritSupply pprev).clearMints =
      ((pindex.inheritSupply pprev).clearMints).withFiles files := by
    unfold CBlockIndex.inheritSupply
    cases pprev with
    | none => rfl
    | some prev =>
      dsimp only
      split_ifs <;> rfl
  have height : (pindex.withFiles files).nHeight = pindex.nHeight := rfl
  unfold updateZPIVSupply
  dsimp only
  rw [started, height]
  cases zerocoinSpendListFromBlock lib fraud
      (decide (params.nBlockRecalculateAccumulators ≤ pindex.nHeight)) block.vtx with
  | none => rfl
  | some listSpends =>
    dsimp only
    rw [addMints_withFiles, subtractSpends_withFiles]
    split_ifs <;> rfl

section Sides

variable {excused : CheckState → Prop} {env : ConnectEnv} {first second : NodeData}
variable {block : CBlock} {items : List CTransaction} {nHeight : Int}

/-- The two runs are abreast at a height. -/
structure AbreastAt (excused : CheckState → Prop) (first : NodeData)
    (items : List CTransaction) (nHeight : Int) (left right : ConnectState) : Prop where
  abreast : Abreast excused first items left right
  height : left.pindex.nHeight = nHeight

/-- Up to the loop the first node follows the second one, unless its spork limits the
transactions of a block. -/
theorem follows_connectChecks
    (notGenesis : block.hash ≠ env.context.params.hashGenesisBlock)
    (few : ExcusesRejections excused ∨ ∀ state : ConnectState,
      state.pindex.nHeight = nHeight →
        tooManyTransactions (env.onNode first) block state = false)
    (leftFlag rightFlag : Bool) :
    Stage.Follows ScriptsHold (ExcusedRun excused) (AbreastAt excused first items nHeight)
      (AbreastAt excused first items nHeight)
      (Stage.sequence (connectChecks (env.onNode first) block false leftFlag).tail)
      (Stage.sequence (connectChecks (env.onNode second) block false rightFlag).tail) := by
  have other : (block.hash == env.context.params.hashGenesisBlock) = false := by
    simpa using notGenesis
  apply Stage.follows_sequence
  unfold connectChecks
  rw [ConnectEnv.context_onNode, ConnectEnv.context_onNode, other]
  simp only [List.tail_cons, List.forall₂_cons, List.Forall₂.nil, and_true]
  refine ⟨?best, Stage.follows_acceptIf, ?work, ?limit, ?coins⟩
  case best =>
    apply Stage.follows_assert
    intro left right at_ holds
    rw [at_.abreast.view]
    exact holds
  case work =>
    apply Stage.follows_sharedTest
    intro left right at_
    rw [at_.abreast.nHeight]
  case limit =>
    apply Stage.follows_rejectIf
    intro left right at_ _ _
    rcases few with excuses | few
    · exact Or.inr (excuses _ at_.abreast.running _ _ _)
    · exact Or.inl (few left at_.height)
  case coins =>
    apply Stage.follows_sharedTest
    intro left right at_
    unfold overwritesCoins
    rw [at_.abreast.view]

/-- The two runs are abreast behind the loop, at a height, with the fees of the block and
what it mints. -/
structure AbreastWith (excused : CheckState → Prop) (first : NodeData)
    (nHeight nFees nMint : Int) (left right : ConnectState) : Prop
    extends AbreastAt excused first [] nHeight left right where
  fees : left.nFees = nFees
  minted : left.nValueOut - left.nValueIn + left.nFees = nMint

variable {nFees nMint : Int}

/-- The supply of the block can be tracked on the first node where it can on the second
one. -/
theorem follows_updateSupply :
    Stage.Follows ScriptsHold (ExcusedRun excused) (AbreastWith excused first nHeight nFees nMint)
      (AbreastWith excused first nHeight nFees nMint)
      (updateSupply (env.onNode first) block) (updateSupply (env.onNode second) block) := by
  constructor
  · intro right next passed alive
    obtain ⟨supplied, _, rfl⟩ := (updateSupply_eq_none_iff _ _).mp passed
    exact alive
  · intro left right next rewarded passed _
    obtain ⟨supplied, supplies, rfl⟩ := (updateSupply_eq_none_iff _ _).mp passed
    replace supplies : updateZPIVSupply env.context.params env.context.lib env.fraud block
        env.pprev right.pindex = (.accept, supplied) := supplies
    have leftSupplies := updateZPIVSupply_withFiles env.context.params env.context.lib
      env.fraud block env.pprev right.pindex left.pindex
    rw [← rewarded.abreast.pindex, supplies] at leftSupplies
    obtain ⟨supply, mints, same⟩ := sameButSupply_updateZPIVSupply env.context.params
      env.context.lib env.fraud block env.pprev left.pindex
    rw [leftSupplies] at same
    have height := congrArg CBlockIndex.nHeight same
    have leftStep : updateSupply (env.onNode first) block left =
        (none, { left with pindex := supplied.withFiles left.pindex }) :=
      (updateSupply_eq_none_iff _ _).mpr ⟨_, leftSupplies, rfl⟩
    rw [leftStep]
    exact
      { abreast :=
          { rewarded.abreast with
            pindex := rfl
            fees := Or.inr (by simp [viewsInBlock]) }
        height := height.trans rewarded.height
        fees := rewarded.fees
        minted := rewarded.minted }

theorem isBlockValueValid_of_h8
    (late : params.getChainHeight .h8 ≤ nHeight)
    (masternodes others : MasternodeLocal) (node other : NodeLocal) :
    isBlockValueValid params masternodes node nHeight nExpectedValue nMinted ancestors =
      isBlockValueValid params others other nHeight nExpectedValue nMinted ancestors := by
  unfold isBlockValueValid
  simp only [if_pos late]

/-- The payments of a block with these fees are asked for by none of the rules of a node,
and what it mints is within the limit that the node sets before the eighth height. -/
structure RewardsPass (env : ConnectEnv) (own : NodeData) (block : CBlock)
    (nHeight nFees nMint : Int) : Prop where
  payees : own.node.isInitialBlockDownload = true ∨
    isBlockPayeeValid env.context.params env.payments own.masternodes own.node block nHeight
      nFees env.ancestors = true
  value : nHeight < env.context.params.getChainHeight .h8 →
    isBlockValueValid env.context.params own.masternodes own.node nHeight
      (nFees + getBlockExpectedMint env.context.params nHeight) nMint env.ancestors = true

/-- The amount that the block mints is in the entry. -/
structure AbreastMinted (excused : CheckState → Prop) (first : NodeData)
    (nHeight nFees nMint : Int) (left right : ConnectState) : Prop
    extends AbreastWith excused first nHeight nFees nMint left right where
  tracked : left.pindex.nMint = nMint

theorem follows_trackMoneySupply :
    Stage.Follows ScriptsHold (ExcusedRun excused) (AbreastWith excused first nHeight nFees nMint)
      (AbreastMinted excused first nHeight nFees nMint)
      (Stage.update (trackMoneySupply (env.onNode first)))
      (Stage.update (trackMoneySupply (env.onNode second))) := by
  apply Stage.follows_update
  · exact fun _ alive => alive
  · intro left right rewarded _
    have abreast := rewarded.abreast
    have entries : (trackMoneySupply (env.onNode first) left).pindex =
        (trackMoneySupply (env.onNode second) right).pindex.withFiles left.pindex := by
      unfold trackMoneySupply
      rw [abreast.nValueOut, abreast.nValueIn, abreast.nFees]
      conv_lhs => rw [abreast.pindex]
      rfl
    have tracked : (trackMoneySupply (env.onNode first) left).pindex.nMint = nMint := by
      rw [← rewarded.minted]
      unfold trackMoneySupply
      dsimp only
      omega
    exact
      { abreast :=
          { abreast with
            pindex := entries
            fees := Or.inr (by simp [viewsInBlock]) }
        height := rewarded.height
        fees := rewarded.fees
        minted := rewarded.minted
        tracked := tracked }

/-- After the loop the first node follows the second one up to the writes, unless it
refuses the payments or the value of the block. -/
theorem follows_connectRewards
    (pass : ExcusesRejections excused ∨ RewardsPass env first block nHeight nFees nMint) :
    Stage.Follows ScriptsHold (ExcusedRun excused) (AbreastWith excused first nHeight nFees nMint)
      (AbreastMinted excused first nHeight nFees nMint)
      (Stage.sequence (connectRewards (env.onNode first) block))
      (Stage.sequence (connectRewards (env.onNode second) block)) := by
  apply Stage.follows_sequence_cons follows_updateSupply
  apply Stage.follows_sequence_cons follows_trackMoneySupply
  apply Stage.follows_sequence
  simp only [List.forall₂_cons, List.Forall₂.nil, and_true]
  refine ⟨?payees, ?value, ?accumulators, ?control⟩
  case payees =>
    apply Stage.follows_rejectIf
    intro left right rewarded _ _
    rcases pass with excuses | pass
    · let later := left.checks.insertRejectedBlock block.hash first.node.time
      have running : later.state.mode ≠ .error := rewarded.abreast.running
      exact Or.inr (excuses later running _ _ _)
    · left
      unfold payeeRefused
      rw [rewarded.height, rewarded.fees, Bool.and_eq_false_iff]
      rcases pass.payees with downloading | valid
      · left
        rw [ConnectEnv.node_onNode, downloading]
        rfl
      · right
        rw [Bool.not_eq_false']
        exact valid
  case value =>
    apply Stage.follows_rejectIf
    intro left right rewarded _ passes
    rcases pass with excuses | pass
    · exact Or.inr (excuses _ rewarded.abreast.running _ _ _)
    left
    have rightHeight := rewarded.abreast.nHeight.symm.trans rewarded.height
    have rightFees := rewarded.abreast.nFees.symm.trans rewarded.fees
    have rightMint : right.pindex.nMint = nMint := by
      rw [← rewarded.tracked, rewarded.abreast.pindex]
      rfl
    unfold valueRefused at passes ⊢
    rw [rightHeight, rightFees, rightMint, Bool.not_eq_false'] at passes
    rw [rewarded.height, rewarded.fees, rewarded.tracked, Bool.not_eq_false']
    rcases lt_or_ge nHeight (env.context.params.getChainHeight .h8) with early | late
    · exact pass.value early
    · rw [← passes]
      exact isBlockValueValid_of_h8 late _ _ _ _
  case accumulators =>
    constructor
    · intro right next passed alive
      unfold accumulatorStage at passed
      split at passed <;> cases passed
      exact alive
    · intro left right next rewarded passed _
      unfold accumulatorStage at passed ⊢
      have same : validateAccumulatorCheckpoint (env.onNode first) block left.pindex.nHeight =
          validateAccumulatorCheckpoint (env.onNode second) block right.pindex.nHeight := by
        rw [rewarded.abreast.nHeight]
        rfl
      rw [same]
      cases validated : validateAccumulatorCheckpoint (env.onNode second) block
          right.pindex.nHeight with
      | none =>
        rw [validated] at passed
        cases passed
      | some mapAccumulators =>
        rw [validated] at passed
        cases passed
        exact { rewarded with abreast := { rewarded.abreast with } }
  case control =>
    apply Stage.follows_rejectIf
    intro left right rewarded _ _
    left
    rw [rewarded.abreast.control]
    rfl

end Sides

end ColossusCoin
