import ColossusCoin.Validation.MintRecords

/-!
# Blocks against two mint records

`CheckBlock` on two databases, one of which has more mints recorded.  The verdicts agree
where the block mints none of the values that only the larger one has, or mints them in the
very transactions they are recorded with; otherwise the node with the larger one rejects
the block.
-/

namespace ColossusCoin

/-- A transaction of a block mints a value while zerocoins are active. -/
def CBlock.Mints (block : CBlock) (hashTx : Uint256) (value : CBigNum) : Prop :=
  block.fZerocoinActive = true ∧
    ∃ tx ∈ block.vtx, tx.hash = hashTx ∧
      ∃ txout ∈ tx.vout, txout.isZerocoinMint = true ∧
        ∃ pubCoin, txOutToPublicCoin txout = some pubCoin ∧ pubCoin.value = value

/-- No value that the block mints is recorded with another transaction in the larger
database only. -/
def CBlock.MintsApart (block : CBlock) (db larger : CZerocoinDB) : Prop :=
  ∀ hashTx value, block.Mints hashTx value →
    ∀ recorded, db.mints value = none → larger.mints value = some recorded →
      recorded = hashTx

namespace CheckState

/-- The records with other mints. -/
def withMints (mints : CBigNum → Option Uint256) (checks : CheckState) : CheckState :=
  { checks with zerocoinDB := { checks.zerocoinDB with mints := mints } }

/-- The second records have all mints of the first ones, with the same transactions.  The
mints they have beyond are recorded with whatever transaction is to mint them. -/
structure Shadowed (minted : Uint256 → CBigNum → Prop) (left right : CheckState) :
    Prop where
  same : right = left.withMints right.zerocoinDB.mints
  kept : ∀ value hashTx, left.zerocoinDB.mints value = some hashTx →
    right.zerocoinDB.mints value = some hashTx
  apart : ∀ value hashTx, left.zerocoinDB.mints value = none →
    right.zerocoinDB.mints value = some hashTx →
      ∀ minter, minted minter value → hashTx = minter

/-- A change that neither reads nor writes mints. -/
theorem Shadowed.change
    {left right : CheckState}
    (shadowed : Shadowed minted left right)
    {change : CheckState → CheckState}
    (commutes : ∀ mints, change (left.withMints mints) = (change left).withMints mints)
    (keeps : (change left).zerocoinDB.mints = left.zerocoinDB.mints) :
    Shadowed minted (change left) (change right) := by
  have mints : (change right).zerocoinDB.mints = right.zerocoinDB.mints := by
    rw [shadowed.same, commutes]
    rfl
  constructor
  · rw [mints]
    rw [← commutes, ← shadowed.same]
  · rw [mints, keeps]
    exact shadowed.kept
  · rw [mints, keeps]
    exact shadowed.apart

theorem Shadowed.dos
    {left right : CheckState}
    (shadowed : Shadowed minted left right)
    (level : Int) (code : Nat) (reason : String) :
    Shadowed minted (left.dos level code reason) (right.dos level code reason) :=
  shadowed.change (fun _ => rfl) rfl

/-- A stage that neither reads nor writes mints keeps two runs in step. -/
theorem lockstep_of_commutes
    {stage : Stage CheckState}
    (commutes : ∀ mints checks, stage (withMints mints checks) =
      ((stage checks).1, withMints mints (stage checks).2))
    (keeps : ∀ checks, (stage checks).2.zerocoinDB.mints = checks.zerocoinDB.mints) :
    Stage.Lockstep (Shadowed minted) stage := by
  intro left right shadowed
  refine ⟨?_, ?_⟩
  · rw [shadowed.same, commutes]
  · exact @Shadowed.change minted left right shadowed (fun checks => (stage checks).2)
      (fun mints => by rw [commutes]) (keeps left)

end CheckState

section Lockstep

/-- The mint is recorded by both runs, or it is recorded already where it is in the larger
database only. -/
theorem CheckState.Shadowed.writeMint
    (shadowed : CheckState.Shadowed minted left right)
    (recorded : mints pubCoin.value = some txHash)
    (others : ∀ value, value ≠ pubCoin.value → mints value = right.zerocoinDB.mints value) :
    CheckState.Shadowed minted
      { left with zerocoinDB := left.zerocoinDB.writeCoinMint pubCoin txHash }
      (right.withMints mints) := by
  constructor
  · rw [shadowed.same]
    rfl
  · intro value hashTx found
    change mints value = some hashTx
    by_cases here : value = pubCoin.value
    · subst here
      simp only [CZerocoinDB.writeCoinMint, Function.update_self] at found
      rw [recorded, found]
    · simp only [CZerocoinDB.writeCoinMint, Function.update_of_ne here] at found
      rw [others value here]
      exact shadowed.kept value hashTx found
  · intro value hashTx absent found
    change mints value = some hashTx at found
    by_cases here : value = pubCoin.value
    · subst here
      simp [CZerocoinDB.writeCoinMint] at absent
    · simp only [CZerocoinDB.writeCoinMint, Function.update_of_ne here] at absent
      rw [others value here] at found
      exact shadowed.apart value hashTx absent found

theorem checkZerocoinMint_inStep
    (lib : ZerocoinLib)
    (mints : ∀ pubCoin, txOutToPublicCoin txout = some pubCoin → minted txHash pubCoin.value)
    (left right : CheckState)
    (shadowed : CheckState.Shadowed minted left right) :
    (checkZerocoinMint lib txHash txout right).1 = (checkZerocoinMint lib txHash txout left).1 ∧
      CheckState.Shadowed minted (checkZerocoinMint lib txHash txout left).2
        (checkZerocoinMint lib txHash txout right).2 := by
  unfold checkZerocoinMint
  cases read : txOutToPublicCoin txout with
  | none => exact ⟨rfl, (shadowed.dos 100 0 "").dos 100 0 ""⟩
  | some pubCoin =>
    dsimp only
    split_ifs
    · exact ⟨rfl, shadowed.dos 100 0 ""⟩
    · unfold CZerocoinDB.recordMintToDB
      cases leftHeld : left.zerocoinDB.mints pubCoin.value with
      | some hashFromDB =>
        rw [shadowed.kept _ _ leftHeld]
        dsimp only
        cases hashFromDB == txHash with
        | true => exact ⟨rfl, shadowed⟩
        | false => exact ⟨rfl, shadowed.dos 100 0 ""⟩
      | none =>
        cases rightHeld : right.zerocoinDB.mints pubCoin.value with
        | none =>
          refine ⟨rfl, shadowed.writeMint ?_ ?_⟩
          · rw [Function.update_self]
          · intro value other
            rw [Function.update_of_ne other]
        | some hashFromDB =>
          -- Only the larger database has the value, with the very transaction.
          have same : hashFromDB = txHash :=
            shadowed.apart _ _ leftHeld rightHeld txHash (mints pubCoin read)
          subst same
          have written := shadowed.writeMint rightHeld fun _ _ => rfl
          dsimp only
          rw [beq_self_eq_true]
          exact ⟨rfl, written⟩

theorem checkOutputs_inStep
    (params : CChainParams) (lib : ZerocoinLib) (fZerocoinActive : Bool)
    (mints : fZerocoinActive = true → ∀ txout ∈ outs, txout.isZerocoinMint = true →
      ∀ pubCoin, txOutToPublicCoin txout = some pubCoin → minted tx.hash pubCoin.value)
    (nValueOut : Int) :
    Stage.Lockstep (CheckState.Shadowed minted)
      (checkOutputs params lib fZerocoinActive tx outs nValueOut) := by
  induction outs generalizing nValueOut with
  | nil => exact fun left right shadowed => ⟨rfl, shadowed⟩
  | cons txout rest ih =>
    have mintInStep : Stage.Lockstep (CheckState.Shadowed minted)
        (mintStage lib fZerocoinActive tx txout) := by
      unfold mintStage
      cases mintsHere : fZerocoinActive && txout.isZerocoinMint with
      | false => exact fun left right shadowed => ⟨rfl, shadowed⟩
      | true =>
        rw [Bool.and_eq_true] at mintsHere
        apply Stage.lockstep_when
        apply Stage.lockstep_require
        · exact checkZerocoinMint_inStep lib
            (mints mintsHere.1 txout List.mem_cons_self mintsHere.2)
        · exact fun left right shadowed => shadowed.dos 100 0 ""
    have restInStep := ih
      (fun active other member => mints active other (List.mem_cons_of_mem _ member))
    intro left right shadowed
    obtain ⟨sameExit, stepped⟩ := mintInStep left right shadowed
    rw [checkOutputs, checkOutputs]
    split_ifs
    · exact ⟨rfl, shadowed.dos _ _ _⟩
    · exact ⟨rfl, shadowed.dos _ _ _⟩
    · exact ⟨rfl, shadowed.dos _ _ _⟩
    · exact ⟨rfl, shadowed.dos _ _ _⟩
    · unfold mintStage at sameExit stepped
      dsimp only
      generalize Stage.when (fZerocoinActive && txout.isZerocoinMint)
        (Stage.require (checkZerocoinMint lib tx.hash txout) (CheckState.dos 100 0 ""))
          left = leftOutcome at sameExit stepped ⊢
      generalize Stage.when (fZerocoinActive && txout.isZerocoinMint)
        (Stage.require (checkZerocoinMint lib tx.hash txout) (CheckState.dos 100 0 ""))
          right = rightOutcome at sameExit stepped ⊢
      obtain ⟨leftExit, leftNext⟩ := leftOutcome
      obtain ⟨rightExit, rightNext⟩ := rightOutcome
      subst sameExit
      cases rightExit with
      | some exit => exact ⟨rfl, stepped⟩
      | none => exact restInStep _ _ _ stepped

/-- The loop over spends neither reads nor writes mints. -/
theorem checkSpendInputs_withMints
    (lib : ZerocoinLib) (fVerifySignature : Bool) (hashTxOut : Uint256)
    (txins : List CTxIn) (serials : List CBigNum) (nTotalRedeemed : Int)
    (mints : CBigNum → Option Uint256) (checks : CheckState) :
    checkSpendInputs lib fVerifySignature hashTxOut txins serials nTotalRedeemed
        (checks.withMints mints) =
      let outcome := checkSpendInputs lib fVerifySignature hashTxOut txins serials
        nTotalRedeemed checks
      ((outcome.1.1, outcome.1.2.withMints mints), outcome.2) := by
  induction txins generalizing serials nTotalRedeemed with
  | nil => rfl
  | cons txin rest ih =>
    unfold checkSpendInputs
    split_ifs
    · exact ih serials nTotalRedeemed
    · cases lib.txInToZerocoinSpend txin with
      | none => rfl
      | some newSpend =>
        have sameAccumulators : (checks.withMints mints).zerocoinDB.accumulators =
            checks.zerocoinDB.accumulators := rfl
        dsimp only
        rw [sameAccumulators]
        split_ifs
        · rfl
        · rfl
        · rfl
        · rfl
        · rfl
        · exact ih _ _

theorem checkZerocoinSpend_withMints
    (lib : ZerocoinLib) (fVerifySignature : Bool) (tx : CTransaction)
    (mints : CBigNum → Option Uint256) (checks : CheckState) :
    checkZerocoinSpend lib fVerifySignature tx (checks.withMints mints) =
      let outcome := checkZerocoinSpend lib fVerifySignature tx checks
      (outcome.1, outcome.2.withMints mints) := by
  unfold checkZerocoinSpend
  rw [checkSpendInputs_withMints]
  split_ifs
  · rfl
  · generalize checkSpendInputs lib fVerifySignature (lib.hashOutputs tx.vout) tx.vin [] 0
      checks = outcome
    obtain ⟨⟨exit, next⟩, serials, nTotalRedeemed⟩ := outcome
    cases exit with
    | some exit => rfl
    | none =>
      cases tx.getValueOut with
      | none => rfl
      | some nValueOut =>
        dsimp only
        split_ifs <;> rfl

theorem checkTransaction_inStep
    (params : CChainParams) (lib : ZerocoinLib) (fVerifySignature fZerocoinActive : Bool)
    (mints : fZerocoinActive = true → ∀ txout ∈ tx.vout, txout.isZerocoinMint = true →
      ∀ pubCoin, txOutToPublicCoin txout = some pubCoin → minted tx.hash pubCoin.value)
    {left right : CheckState}
    (shadowed : CheckState.Shadowed minted left right) :
    (checkTransaction params lib fVerifySignature fZerocoinActive tx right).1 =
        (checkTransaction params lib fVerifySignature fZerocoinActive tx left).1 ∧
      CheckState.Shadowed minted
        (checkTransaction params lib fVerifySignature fZerocoinActive tx left).2
        (checkTransaction params lib fVerifySignature fZerocoinActive tx right).2 := by
  have rejects : ∀ (test : Bool) (level : Int) (code : Nat) (reason : String),
      Stage.Lockstep (CheckState.Shadowed minted)
        (Stage.rejectIf (fun _ => test) (CheckState.dos level code reason)) := by
    intro test level code reason
    exact Stage.lockstep_rejectIf (fun _ _ _ => rfl) fun _ _ shadowed => shadowed.dos _ _ _
  refine Stage.run_inStep ?_ shadowed
  intro stage member
  simp only [checkTransactionStages, List.mem_cons, List.not_mem_nil, or_false] at member
  rcases member with rfl | rfl | rfl | rfl | rfl | rfl | rfl | rfl | rfl
  · exact rejects _ _ _ _
  · exact rejects _ _ _ _
  · exact rejects _ _ _ _
  · exact checkOutputs_inStep params lib fZerocoinActive mints 0
  · exact rejects _ _ _ _
  · exact rejects _ _ _ _
  · apply Stage.lockstep_when
    apply CheckState.lockstep_of_commutes
    · intro mints checks
      rw [Stage.require_eq, Stage.require_eq, checkZerocoinSpend_withMints]
      split_ifs <;> rfl
    · intro checks
      rw [Stage.require_eq]
      dsimp only
      have same := congrArg Prod.fst
        (outsideState_checkZerocoinSpend lib fVerifySignature tx checks)
      split_ifs
      · exact congrArg CZerocoinDB.mints same
      · exact congrArg CZerocoinDB.mints same
  · exact rejects _ _ _ _
  · intro left right shadowed
    cases inputFault params fZerocoinActive tx with
    | none => exact ⟨rfl, shadowed⟩
    | some fault => exact ⟨rfl, shadowed.dos _ _ _⟩

theorem addBlockSerials_withMints
    (lib : ZerocoinLib) (txins : List CTxIn) (serials : List CBigNum)
    (mints : CBigNum → Option Uint256) (checks : CheckState) :
    addBlockSerials lib txins serials (checks.withMints mints) =
      let outcome := addBlockSerials lib txins serials checks
      ((outcome.1.1, outcome.1.2.withMints mints), outcome.2) := by
  induction txins generalizing serials with
  | nil => rfl
  | cons txin rest ih =>
    unfold addBlockSerials
    cases lib.txInToZerocoinSpend txin with
    | none => rfl
    | some spend =>
      dsimp only
      split_ifs
      · rfl
      · exact ih _

theorem checkTransactions_inStep
    (context : ChainContext) (node : NodeLocal) (fZerocoinActive : Bool)
    (mints : fZerocoinActive = true → ∀ tx ∈ txs, ∀ txout ∈ tx.vout,
      txout.isZerocoinMint = true → ∀ pubCoin, txOutToPublicCoin txout = some pubCoin →
        minted tx.hash pubCoin.value)
    (serials : List CBigNum) :
    Stage.Lockstep (CheckState.Shadowed minted)
      (checkTransactions context node fZerocoinActive txs serials) := by
  induction txs generalizing serials with
  | nil => exact fun left right shadowed => ⟨rfl, shadowed⟩
  | cons tx rest ih =>
    intro left right shadowed
    have step := checkTransaction_inStep context.params context.lib node.fVerifySignature
      fZerocoinActive (fun active => mints active tx List.mem_cons_self) shadowed
    have restInStep := ih
      fun active other member => mints active other (List.mem_cons_of_mem _ member)
    unfold checkTransactions
    generalize checkTransaction context.params context.lib node.fVerifySignature
      fZerocoinActive tx left = leftOutcome at step ⊢
    generalize checkTransaction context.params context.lib node.fVerifySignature
      fZerocoinActive tx right = rightOutcome at step ⊢
    obtain ⟨leftExit, leftChecked⟩ := leftOutcome
    obtain ⟨rightExit, rightChecked⟩ := rightOutcome
    obtain ⟨sameExit, stepped⟩ := step
    subst sameExit
    cases rightExit with
    | accept =>
      have sameSerials := addBlockSerials_withMints context.lib
        (if tx.isZerocoinSpend then tx.zerocoinSpendInputs else []) serials
        rightChecked.zerocoinDB.mints leftChecked
      have keeps := zerocoinDB_addBlockSerials context.lib
        (if tx.isZerocoinSpend then tx.zerocoinSpendInputs else []) serials leftChecked
      rw [← stepped.same] at sameSerials
      dsimp only
      rw [sameSerials]
      generalize addBlockSerials context.lib
        (if tx.isZerocoinSpend then tx.zerocoinSpendInputs else []) serials leftChecked =
          outcome at keeps ⊢
      obtain ⟨⟨exit, passed⟩, seen⟩ := outcome
      have passedShadowed : CheckState.Shadowed minted passed
          (passed.withMints rightChecked.zerocoinDB.mints) := by
        constructor
        · rfl
        · rw [keeps]
          exact stepped.kept
        · rw [keeps]
          exact stepped.apart
      cases exit with
      | some exit => exact ⟨rfl, passedShadowed⟩
      | none => exact restInStep _ _ _ passedShadowed
    | reject => exact ⟨rfl, stepped⟩
    | abort => exact ⟨rfl, stepped⟩
    | assertFails => exact ⟨rfl, stepped⟩

end Lockstep

/-- `CheckBlock` ends alike on both databases where they agree on what the block mints. -/
theorem checkBlock_inStep
    (context : ChainContext) (node : NodeLocal) (fCheckMerkleRoot : Bool)
    {left right : CheckState}
    (shadowed : CheckState.Shadowed block.Mints left right) :
    (checkBlock context node fCheckMerkleRoot block right).1 =
        (checkBlock context node fCheckMerkleRoot block left).1 ∧
      CheckState.Shadowed block.Mints
        (checkBlock context node fCheckMerkleRoot block left).2
        (checkBlock context node fCheckMerkleRoot block right).2 := by
  refine Stage.run_inStep ?_ shadowed
  intro stage member
  rcases List.mem_cons.mp member with rfl | member
  · apply CheckState.lockstep_of_commutes
    · intro mints checks
      unfold checkBlockHeaderStage checkBlockHeader
      split_ifs <;> rfl
    · intro checks
      unfold checkBlockHeaderStage checkBlockHeader
      split_ifs <;> rfl
  rcases List.mem_append.mp member with inTests | member
  · simp only [checkBlockTests, List.mem_cons, List.not_mem_nil, or_false] at inTests
    rcases inTests with rfl | rfl | rfl | rfl | rfl | rfl | rfl | rfl | rfl | rfl
    all_goals
      refine Stage.lockstep_rejectIf (fun _ _ _ => rfl) fun left right shadowed => ?_
      exact shadowed.change (fun _ => rfl) rfl
  · rw [List.mem_cons, List.mem_singleton] at member
    rcases member with rfl | rfl
    · apply checkTransactions_inStep
      intro active tx inBlock txout output mint pubCoin read
      exact ⟨active, tx, inBlock, rfl, txout, output, mint, pubCoin, read, rfl⟩
    · refine Stage.lockstep_rejectIf (fun _ _ _ => rfl) fun left right shadowed => ?_
      exact shadowed.change (fun _ => rfl) rfl

/-- A mint is recorded with a transaction. -/
def HasMint (value : CBigNum) (recorded : Uint256) (checks : CheckState) : Prop :=
  checks.zerocoinDB.mints value = some recorded

theorem hasMint_of_keepsMints
    (keeps : Stage.Relates CheckState.KeepsMints stage)
    (value : CBigNum) (recorded : Uint256) :
    Stage.Relates (fun before after => HasMint value recorded before →
      HasMint value recorded after) stage :=
  fun checks => (keeps checks).mints value recorded

theorem stops_checkOutputs
    (params : CChainParams) (lib : ZerocoinLib)
    (output : txout ∈ outs)
    (mint : txout.isZerocoinMint = true)
    (read : txOutToPublicCoin txout = some pubCoin)
    (other : recorded ≠ tx.hash)
    (nValueOut : Int) :
    Stage.Stops (HasMint pubCoin.value recorded)
      (checkOutputs params lib true tx outs nValueOut) := by
  induction outs generalizing nValueOut with
  | nil => cases output
  | cons head rest ih =>
    intro checks held
    rcases checkOutputs_cons params lib true tx head rest nValueOut checks with
      ⟨_, rejected, _⟩ | ⟨_, step⟩
    · rw [rejected]
      exact Option.some_ne_none _
    · have kept := hasMint_of_keepsMints (keepsMints_mintStage lib true tx head)
        pubCoin.value recorded checks held
      rw [step]
      rcases List.mem_cons.mp output with rfl | inRest
      · have refused : (checkZerocoinMint lib tx.hash txout checks).1 ≠ .accept := by
          have differs : (recorded == tx.hash) = false := by simpa using other
          unfold HasMint at held
          unfold checkZerocoinMint
          rw [read]
          dsimp only
          split_ifs
          · simp
          · simp [CZerocoinDB.recordMintToDB, held, differs]
        have stopped : (mintStage lib true tx txout checks).1 ≠ none := by
          unfold mintStage
          rw [mint, Bool.and_self, Stage.when, if_pos rfl, Stage.require_eq, if_neg refused]
          exact Option.some_ne_none _
        generalize mintStage lib true tx txout checks = outcome at stopped ⊢
        obtain ⟨exit, next⟩ := outcome
        cases exit with
        | some exit => exact Option.some_ne_none exit
        | none => exact absurd rfl stopped
      · generalize mintStage lib true tx head checks = outcome at kept ⊢
        obtain ⟨exit, next⟩ := outcome
        cases exit with
        | some exit => exact Option.some_ne_none exit
        | none => exact ih inRest _ next kept

theorem keepsMints_checkTransactionStages
    (params : CChainParams) (lib : ZerocoinLib) (fVerifySignature fZerocoinActive : Bool)
    (tx : CTransaction) :
    ∀ stage ∈ checkTransactionStages params lib fVerifySignature fZerocoinActive tx,
      Stage.Relates CheckState.KeepsMints stage := by
  intro stage member
  simp only [checkTransactionStages, List.mem_cons, List.not_mem_nil, or_false] at member
  rcases member with rfl | rfl | rfl | rfl | rfl | rfl | rfl | rfl | rfl
  · exact Stage.relates_rejectIf _ fun _ => keepsMints_of_eq rfl
  · exact Stage.relates_rejectIf _ fun _ => keepsMints_of_eq rfl
  · exact Stage.relates_rejectIf _ fun _ => keepsMints_of_eq rfl
  · exact keepsMints_checkOutputs params lib fZerocoinActive tx tx.vout 0
  · exact Stage.relates_rejectIf _ fun _ => keepsMints_of_eq rfl
  · exact Stage.relates_rejectIf _ fun _ => keepsMints_of_eq rfl
  · apply Stage.relates_when
    apply Stage.relates_require
    · intro checks
      exact keepsMints_of_eq (congrArg Prod.fst
        (outsideState_checkZerocoinSpend lib fVerifySignature tx checks))
    · exact fun _ => keepsMints_of_eq rfl
  · exact Stage.relates_rejectIf _ fun _ => keepsMints_of_eq rfl
  · intro checks
    split <;> exact keepsMints_of_eq rfl

theorem checkTransaction_ne_accept
    {lib : ZerocoinLib}
    {txout : CTxOut}
    {checks : CheckState}
    (output : txout ∈ tx.vout)
    (mint : txout.isZerocoinMint = true)
    (read : txOutToPublicCoin txout = some pubCoin)
    (other : recorded ≠ tx.hash)
    (held : HasMint pubCoin.value recorded checks) :
    (checkTransaction params lib fVerifySignature true tx checks).1 ≠ .accept := by
  have stage : checkOutputs params lib true tx tx.vout 0 ∈
      checkTransactionStages params lib fVerifySignature true tx := by
    simp [checkTransactionStages]
  refine Stage.run_ne_accept
    (neverAccepts_checkTransactionStages params lib fVerifySignature true tx) stage
    (stops_checkOutputs params lib output mint read other 0) ?_ held
  intro stage member
  exact hasMint_of_keepsMints
    (keepsMints_checkTransactionStages params lib fVerifySignature true tx stage member) _ _

/-- The loop over the transactions does not pass one that is not accepted, whatever grows
in the database meanwhile. -/
theorem stops_checkTransactions
    (stable : ∀ before after : CheckState, before.KeepsMints after → holds before → holds after)
    (member : tx ∈ txs)
    (refused : ∀ checks, holds checks → (checkTransaction context.params context.lib
      node.fVerifySignature fZerocoinActive tx checks).1 ≠ .accept)
    (serials : List CBigNum) :
    Stage.Stops holds (checkTransactions context node fZerocoinActive txs serials) := by
  induction txs generalizing serials with
  | nil => cases member
  | cons head rest ih =>
    intro checks held
    have kept := stable _ _ (keepsMints_checkTransaction context.params context.lib
      node.fVerifySignature fZerocoinActive head checks) held
    have headRefused : tx = head → (checkTransaction context.params context.lib
        node.fVerifySignature fZerocoinActive head checks).1 ≠ .accept := by
      rintro rfl
      exact refused checks held
    unfold checkTransactions
    generalize checkTransaction context.params context.lib node.fVerifySignature
      fZerocoinActive head checks = outcome at kept headRefused ⊢
    obtain ⟨exit, checked⟩ := outcome
    cases exit with
    | accept =>
      have inRest : tx ∈ rest :=
        (List.mem_cons.mp member).resolve_left fun same => headRefused same rfl
      have same := zerocoinDB_addBlockSerials context.lib
        (if head.isZerocoinSpend then head.zerocoinSpendInputs else []) serials checked
      dsimp only at kept ⊢
      generalize addBlockSerials context.lib
        (if head.isZerocoinSpend then head.zerocoinSpendInputs else []) serials checked =
          outcome at same ⊢
      obtain ⟨⟨exit, passed⟩, seen⟩ := outcome
      cases exit with
      | some exit => exact Option.some_ne_none exit
      | none =>
        exact ih inRest seen passed (stable _ _ (keepsMints_of_eq same) kept)
    | reject => exact Option.some_ne_none _
    | abort => exact Option.some_ne_none _
    | assertFails => exact Option.some_ne_none _

/-- `CheckBlock` does not accept a block with a transaction that is not accepted, whatever
grows in the database meanwhile. -/
theorem checkBlock_ne_accept_of_refused
    {block : CBlock}
    {holds : CheckState → Prop} {tx : CTransaction} {checks : CheckState}
    (stable : ∀ before after : CheckState, before.KeepsMints after → holds before → holds after)
    (inBlock : tx ∈ block.vtx)
    (refused : ∀ checks, holds checks → (checkTransaction context.params context.lib
      node.fVerifySignature block.fZerocoinActive tx checks).1 ≠ .accept)
    (held : holds checks) :
    (checkBlock context node fCheckMerkleRoot block checks).1 ≠ .accept := by
  have stage : checkTransactions context node block.fZerocoinActive block.vtx [] ∈
      checkBlockHeaderStage context node block ::
        checkBlockStages context node fCheckMerkleRoot block := by
    simp [checkBlockStages]
  refine Stage.run_ne_accept (neverAccepts_checkBlock context node fCheckMerkleRoot block)
    stage (stops_checkTransactions stable inBlock refused []) ?_ held
  have keeps : ∀ {stage : Stage CheckState}, Stage.Relates CheckState.KeepsMints stage →
      Stage.Relates (fun before after => holds before → holds after) stage :=
    fun keeps checks => stable _ _ (keeps checks)
  intro other member
  apply keeps
  rcases List.mem_cons.mp member with rfl | member
  · intro checks
    apply keepsMints_of_eq
    unfold checkBlockHeaderStage checkBlockHeader
    split_ifs <;> rfl
  rcases List.mem_append.mp member with inTests | member
  · simp only [checkBlockTests, List.mem_cons, List.not_mem_nil, or_false] at inTests
    rcases inTests with rfl | rfl | rfl | rfl | rfl | rfl | rfl | rfl | rfl | rfl
    all_goals exact Stage.relates_rejectIf _ fun _ => keepsMints_of_eq rfl
  · rw [List.mem_cons, List.mem_singleton] at member
    rcases member with rfl | rfl
    · exact keepsMints_checkTransactions context node block.fZerocoinActive block.vtx []
    · exact Stage.relates_rejectIf _ fun _ => keepsMints_of_eq rfl

/-- `CheckBlock` does not accept a block that mints a value recorded with another
transaction. -/
theorem checkBlock_ne_accept
    {block : CBlock}
    {value : CBigNum}
    (mints : block.Mints hashTx value)
    (held : checks.zerocoinDB.mints value = some recorded)
    (other : recorded ≠ hashTx) :
    (checkBlock context node fCheckMerkleRoot block checks).1 ≠ .accept := by
  obtain ⟨active, tx, inBlock, rfl, txout, output, mint, pubCoin, read, rfl⟩ := mints
  refine @checkBlock_ne_accept_of_refused _ _ _ _ (HasMint pubCoin.value recorded) _ _ ?_
    inBlock ?_ held
  · exact fun _ _ kept => kept.mints _ _
  · intro checks held
    rw [active]
    exact checkTransaction_ne_accept output mint read other held

end ColossusCoin
