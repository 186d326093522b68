import ColossusCoin.Library.Following
import ColossusCoin.Validation.MintConflicts
import ColossusCoin.Validation.ProofOfWork

/-!
# The checks of a block that are a node's own

`CheckBlock` asks the clock of the node, its transaction locks and the mints it has
recorded, and verifies the proofs of zerocoin spends when the node is up to date.  A node
on which none of these tests fails passes every block that some other node passes.
-/

namespace ColossusCoin

/-- The proofs of the zerocoin spends of a transaction verify against the accumulator
values of a node. -/
def CTransaction.SpendsVerify (lib : ZerocoinLib) (accumulators : Nat → Option CBigNum)
    (tx : CTransaction) : Prop :=
  ∀ txin ∈ tx.vin, txin.scriptSig.isZerocoinSpend = true →
    ∀ spend, lib.txInToZerocoinSpend txin = some spend →
      ∃ bnAccumulatorValue, accumulators spend.accChecksum = some bnAccumulatorValue ∧
        lib.verify txin bnAccumulatorValue = true

/-- None of the tests of `CheckBlock` that are the node's own fails. -/
structure PassesLocalChecks (context : ChainContext) (node : NodeLocal) (block : CBlock)
    (db : CZerocoinDB) : Prop where
  onTime : block.nTime ≤ node.adjustedTime + (if block.isProofOfStake then 60 else 7200)
  unlocked : node.isSporkActive .swiftTxBlockFiltering = true →
    ∀ tx ∈ block.vtx, conflictsWithLock node tx = false
  mints : ∀ hashTx value, block.Mints hashTx value →
    ∀ recorded, db.mints value = some recorded → recorded = hashTx
  verifies : node.fVerifySignature = true → block.fZerocoinActive = true →
    ∀ tx ∈ block.vtx, tx.isZerocoinSpend = true →
      tx.SpendsVerify context.lib db.accumulators

/-- Whatever rejects a block in a running validation is an excuse. -/
def ExcusesRejections (excused : CheckState → Prop) : Prop :=
  ∀ checks : CheckState, checks.state.mode ≠ .error →
    ∀ level code reason, excused (checks.dos level code reason)

theorem running_dos
    {checks : CheckState}
    (running : checks.state.mode ≠ .error)
    (level : Int) (code : Nat) (reason : String) :
    (checks.dos level code reason).state.mode ≠ .error := by
  unfold CheckState.dos CValidationState.dos
  rw [if_neg running]
  exact ModeState.noConfusion

/-- The first validation is running, with the given accumulator values.  It has no mint of
the block recorded for another transaction, unless the second one has the same record, or
rejections are excused. -/
structure Following (excused : CheckState → Prop) (minted : Uint256 → CBigNum → Prop)
    (accumulators : Nat → Option CBigNum) (left right : CheckState) : Prop where
  running : left.state.mode ≠ .error
  mints : ExcusesRejections excused ∨ ∀ hashTx value, minted hashTx value →
    left.zerocoinDB.mints value = none ∨ left.zerocoinDB.mints value = some hashTx ∨
      left.zerocoinDB.mints value = right.zerocoinDB.mints value
  accumulators : left.zerocoinDB.accumulators = accumulators

section Mints

theorem recordMintToDB_eq_true
    {db next : CZerocoinDB}
    (records : db.recordMintToDB pubCoin txHash = (true, next)) :
    (db.mints pubCoin.value = none ∨ db.mints pubCoin.value = some txHash) ∧
      next = { db with mints := Function.update db.mints pubCoin.value (some txHash) } := by
  unfold CZerocoinDB.recordMintToDB at records
  cases held : db.mints pubCoin.value with
  | none =>
    rw [held] at records
    cases records
    exact ⟨Or.inl rfl, rfl⟩
  | some hashFromDB =>
    rw [held] at records
    simp only [Prod.mk.injEq, beq_iff_eq] at records
    obtain ⟨rfl, rfl⟩ := records
    refine ⟨Or.inr rfl, ?_⟩
    rw [← held, Function.update_eq_self]

theorem recordMintToDB_of_free
    {db : CZerocoinDB}
    (free : db.mints pubCoin.value = none ∨ db.mints pubCoin.value = some txHash) :
    db.recordMintToDB pubCoin txHash =
      (true, { db with mints := Function.update db.mints pubCoin.value (some txHash) }) := by
  unfold CZerocoinDB.recordMintToDB
  rcases free with absent | held
  · rw [absent]
    rfl
  · have unchanged : Function.update db.mints pubCoin.value (some txHash) = db.mints := by
      rw [← held, Function.update_eq_self]
    rw [held, unchanged]
    simp

end Mints

section Loop

/-- Everything is live in `CheckBlock`: it remembers no failure. -/
abbrev AlwaysLive (_ : CheckState) : Prop := True

/-- A stage of the first validation follows the one of the second. -/
abbrev FollowsCheck (excused : CheckState → Prop) (minted : Uint256 → CBigNum → Prop)
    (accumulators : Nat → Option CBigNum) (leftStage rightStage : Stage CheckState) : Prop :=
  Stage.Follows AlwaysLive excused (Following excused minted accumulators)
    (Following excused minted accumulators) leftStage rightStage

/-- A test of the transaction or the block alone. -/
theorem follows_sameTest
    {onLeft onRight : CheckState → CheckState} :
    FollowsCheck excused minted accumulators (Stage.rejectIf (fun _ => test) onLeft)
      (Stage.rejectIf (fun _ => test) onRight) :=
  Stage.follows_sharedTest fun _ _ _ => rfl

theorem follows_checkZerocoinMint
    (lib : ZerocoinLib)
    (mints : ∀ pubCoin, txOutToPublicCoin txout = some pubCoin → minted txHash pubCoin.value)
    (following : Following excused minted accumulators left right)
    (accepts : checkZerocoinMint lib txHash txout right = (.accept, next)) :
    (∃ reached, checkZerocoinMint lib txHash txout left = (.accept, reached) ∧
        Following excused minted accumulators reached next) ∨
      ∃ failed, checkZerocoinMint lib txHash txout left = (.reject, failed) ∧
        excused (failed.dos 100 0 "") := by
  unfold checkZerocoinMint at accepts ⊢
  cases read : txOutToPublicCoin txout with
  | none =>
    rw [read] at accepts
    cases accepts
  | some pubCoin =>
    rw [read] at accepts
    dsimp only at accepts ⊢
    split_ifs at accepts ⊢
    · cases accepts
    · cases records : right.zerocoinDB.recordMintToDB pubCoin txHash with
      | mk recorded db =>
        rw [records] at accepts
        cases recorded with
        | false => cases accepts
        | true =>
          cases accepts
          obtain ⟨rightFree, rfl⟩ := recordMintToDB_eq_true records
          cases leftRecords : left.zerocoinDB.recordMintToDB pubCoin txHash with
          | mk recorded db =>
            cases recorded with
            | true =>
              obtain ⟨_, rfl⟩ := recordMintToDB_eq_true leftRecords
              refine Or.inl ⟨_, rfl, following.running, ?_, following.accumulators⟩
              apply following.mints.imp_right
              intro agree hashTx value minter
              by_cases here : value = pubCoin.value
              · subst here
                refine Or.inr (Or.inr ?_)
                dsimp only
                rw [Function.update_self, Function.update_self]
              · dsimp only
                rw [Function.update_of_ne here, Function.update_of_ne here]
                exact agree hashTx value minter
            | false =>
              right
              refine ⟨_, rfl, ?_⟩
              rcases following.mints with excuses | agree
              · let stopped : CheckState := { left with zerocoinDB := db }
                have running : stopped.state.mode ≠ .error := following.running
                exact excuses _ (running_dos running 100 0 "") _ _ _
              · -- A mint that is recorded on the other node is free on this one.
                have leftFree : left.zerocoinDB.mints pubCoin.value = none ∨
                    left.zerocoinDB.mints pubCoin.value = some txHash := by
                  rcases agree txHash pubCoin.value (mints pubCoin read) with
                    absent | held | same
                  · exact Or.inl absent
                  · exact Or.inr held
                  · rw [same]
                    exact rightFree
                rw [recordMintToDB_of_free leftFree] at leftRecords
                cases leftRecords

theorem follows_checkOutputs
    (params : CChainParams) (lib : ZerocoinLib) (fZerocoinActive : Bool)
    (mints : fZerocoinActive = true → ∀ txout ∈ outs, txout.isZerocoinMint = true →
      ∀ pubCoin, txOutToPublicCoin txout = some pubCoin → minted tx.hash pubCoin.value)
    (nValueOut : Int) :
    FollowsCheck excused minted accumulators
      (checkOutputs params lib fZerocoinActive tx outs nValueOut)
      (checkOutputs params lib fZerocoinActive tx outs nValueOut) where
  backward := fun _ _ => trivial
  passes := by
    induction outs generalizing nValueOut with
    | nil =>
      intro left right next following passed _
      cases passed
      exact following
    | cons txout rest ih =>
      have mintFollows : FollowsCheck excused minted accumulators
          (mintStage lib fZerocoinActive tx txout)
          (mintStage lib fZerocoinActive tx txout) := by
        apply Stage.follows_when
        intro mintsHere
        rw [Bool.and_eq_true] at mintsHere
        apply Stage.follows_require
        · exact fun _ _ _ _ => trivial
        · intro left right next following accepts _
          exact follows_checkZerocoinMint lib
            (mints mintsHere.1 txout List.mem_cons_self mintsHere.2) following accepts
      have restFollows := ih
        (fun active other member => mints active other (List.mem_cons_of_mem _ member))
      intro left right next following passed _
      rcases checkOutputs_cons params lib fZerocoinActive tx txout rest nValueOut right with
        ⟨_, rejected, _⟩ | ⟨allowed, rightStep⟩
      · rw [passed] at rejected
        cases rejected
      · rcases checkOutputs_cons params lib fZerocoinActive tx txout rest nValueOut left with
          ⟨refused, _, _⟩ | ⟨_, leftStep⟩
        · rw [allowed] at refused
          cases refused
        · rw [rightStep] at passed
          rw [leftStep]
          cases mintsRight : mintStage lib fZerocoinActive tx txout right with
          | mk exit middle =>
            rw [mintsRight] at passed
            cases exit with
            | some exit => cases passed
            | none =>
              rcases (mintFollows.passes following mintsRight trivial).cases with
                ⟨reached, mintsLeft, followingNow⟩ | ⟨failed, rejects, excuse⟩
              · rw [mintsLeft]
                exact restFollows (nValueOut + txout.nValue) followingNow passed trivial
              · rw [rejects]
                exact excuse

/-- Zerocoin inputs that pass on one node pass on another one, or are rejected there
because a proof does not verify. -/
theorem follows_checkSpendInputs
    (passed : checkSpendInputs lib fVerify hashTxOut txins serials nTotalRedeemed right =
      ((none, next), redeemed))
    (fVerifySignature : Bool) (left : CheckState) :
    next = right ∧
      (checkSpendInputs lib fVerifySignature hashTxOut txins serials nTotalRedeemed left =
          ((none, left), redeemed) ∨
        (checkSpendInputs lib fVerifySignature hashTxOut txins serials nTotalRedeemed
            left).1 = (some .reject, left.dos 100 0 "") ∧
          ¬(fVerifySignature = true → ∀ txin ∈ txins,
            txin.scriptSig.isZerocoinSpend = true →
              ∀ spend, lib.txInToZerocoinSpend txin = some spend →
                ∃ bnAccumulatorValue,
                  left.zerocoinDB.accumulators spend.accChecksum = some bnAccumulatorValue ∧
                    lib.verify txin bnAccumulatorValue = true)) := by
  induction txins generalizing serials nTotalRedeemed with
  | nil =>
    cases passed
    exact ⟨rfl, Or.inl rfl⟩
  | cons txin rest ih =>
    have later : ∀ {condition : CTxIn → Prop},
        ¬(fVerifySignature = true → ∀ other ∈ rest, condition other) →
          ¬(fVerifySignature = true → ∀ other ∈ txin :: rest, condition other) := by
      intro condition fails holds
      exact fails fun verify other member =>
        holds verify other (List.mem_cons_of_mem _ member)
    unfold checkSpendInputs at passed ⊢
    by_cases ordinary : txin.scriptSig.isZerocoinSpend = false
    · rw [if_pos ordinary] at passed ⊢
      have others := ih passed
      exact ⟨others.1, others.2.imp_right fun rejects => ⟨rejects.1, later rejects.2⟩⟩
    · rw [if_neg ordinary] at passed ⊢
      cases decoded : lib.txInToZerocoinSpend txin with
      | none =>
        rw [decoded] at passed
        cases passed
      | some newSpend =>
        rw [decoded] at passed
        dsimp only at passed ⊢
        split_ifs at passed with unknown denomination foreign unverified repeated
        iterate 5
          · cases passed
        have others := ih passed
        refine ⟨others.1, ?_⟩
        rw [if_neg unknown, if_neg denomination, if_neg foreign]
        split_ifs with refused
        · -- The proof of this input does not verify.
          refine Or.inr ⟨rfl, fun holds => ?_⟩
          cases verify : fVerifySignature with
          | false =>
            rw [verify] at refused
            cases refused
          | true =>
            obtain ⟨bnAccumulatorValue, found, proves⟩ := holds verify txin
              List.mem_cons_self (by simpa using ordinary) newSpend decoded
            simp [found, proves] at refused
        · exact others.2.imp_right fun rejects => ⟨rejects.1, later rejects.2⟩

theorem checkSpendInputs_ne_accept
    (left : checkSpendInputs lib fVerify hashTxOut txins serials nTotalRedeemed checks =
      ((some exit, failed), redeemed)) :
    exit ≠ .accept := by
  induction txins generalizing serials nTotalRedeemed with
  | nil => cases left
  | cons txin rest ih =>
    unfold checkSpendInputs at left
    split at left
    · exact ih left
    · split at left
      · cases left
        exact Exit.noConfusion
      · split_ifs at left
        iterate 5
          · cases left
            exact Exit.noConfusion
        exact ih left

theorem follows_checkZerocoinSpend
    (accepts : checkZerocoinSpend lib fVerify tx right = (.accept, next))
    (fVerifySignature : Bool) (left : CheckState) :
    next = right ∧
      (checkZerocoinSpend lib fVerifySignature tx left = (.accept, left) ∨
        checkZerocoinSpend lib fVerifySignature tx left = (.reject, left.dos 100 0 "") ∧
          ¬(fVerifySignature = true →
            tx.SpendsVerify lib left.zerocoinDB.accumulators)) := by
  unfold checkZerocoinSpend at accepts ⊢
  by_cases crowded : 2 < tx.vout.length ∧
      2 < (tx.vout.filter fun out => !out.isZerocoinMint).length
  · rw [if_pos crowded] at accepts
    cases accepts
  rw [if_neg crowded] at accepts ⊢
  cases inputs : checkSpendInputs lib fVerify (lib.hashOutputs tx.vout) tx.vin [] 0 right with
  | mk outcome redeemed =>
    obtain ⟨exit, passed⟩ := outcome
    rw [inputs] at accepts
    cases exit with
    | some exit =>
      cases accepts
      exact absurd rfl (checkSpendInputs_ne_accept inputs)
    | none =>
      obtain ⟨rfl, same | ⟨rejects, unverified⟩⟩ :=
        follows_checkSpendInputs inputs fVerifySignature left
      · rw [same]
        cases returned : tx.getValueOut with
        | none =>
          rw [returned] at accepts
          cases accepts
        | some nValueOut =>
          rw [returned] at accepts
          dsimp only at accepts ⊢
          split_ifs at accepts ⊢
          · cases accepts
          · cases accepts
          · cases accepts
            exact ⟨rfl, Or.inl rfl⟩
      · have unchanged : next = passed := by
          have kept := accepts
          dsimp only at kept
          split at kept
          · cases kept
          · split_ifs at kept <;> cases kept
            rfl
        refine ⟨unchanged, Or.inr ⟨?_, unverified⟩⟩
        generalize checkSpendInputs lib fVerifySignature (lib.hashOutputs tx.vout) tx.vin
          [] 0 left = outcome at rejects
        obtain ⟨⟨exit, failed⟩, total⟩ := outcome
        cases rejects
        rfl

theorem follows_checkTransaction
    {params : CChainParams} {lib : ZerocoinLib}
    {fVerifySignature fVerify fZerocoinActive : Bool} {tx : CTransaction}
    (mints : fZerocoinActive = true → ∀ txout ∈ tx.vout, txout.isZerocoinMint = true →
      ∀ pubCoin, txOutToPublicCoin txout = some pubCoin → minted tx.hash pubCoin.value)
    (verifies : ExcusesRejections excused ∨ (fVerifySignature = true →
      fZerocoinActive = true → tx.isZerocoinSpend = true →
        tx.SpendsVerify lib accumulators))
    {left right next : CheckState}
    (following : Following excused minted accumulators left right)
    (accepts : checkTransaction params lib fVerify fZerocoinActive tx right = (.accept, next)) :
    (∃ reached,
        checkTransaction params lib fVerifySignature fZerocoinActive tx left = (.accept, reached) ∧
        Following excused minted accumulators reached next) ∨
      ∃ failed,
        checkTransaction params lib fVerifySignature fZerocoinActive tx left = (.reject, failed) ∧
        excused failed := by
  have steps : FollowsCheck excused minted accumulators
      (Stage.sequence (checkTransactionStages params lib fVerifySignature fZerocoinActive tx))
      (Stage.sequence (checkTransactionStages params lib fVerify fZerocoinActive tx)) := by
    apply Stage.follows_sequence
    unfold checkTransactionStages
    simp only [List.forall₂_cons, List.Forall₂.nil, and_true]
    refine ⟨follows_sameTest, follows_sameTest, follows_sameTest, ?outputs, follows_sameTest,
      follows_sameTest, ?spends, follows_sameTest, ?inputs⟩
    case outputs => exact follows_checkOutputs params lib fZerocoinActive mints 0
    case spends =>
      apply Stage.follows_when
      intro spending
      rw [Bool.and_eq_true] at spending
      apply Stage.follows_require
      · exact fun _ _ _ _ => trivial
      · intro left right next following accepts _
        obtain ⟨rfl, same | ⟨rejects, unverified⟩⟩ :=
          follows_checkZerocoinSpend accepts fVerifySignature left
        · exact Or.inl ⟨left, same, following⟩
        · refine Or.inr ⟨_, rejects, ?_⟩
          rw [following.accumulators] at unverified
          have excuses := verifies.resolve_right fun holds =>
            unverified fun verify => holds verify spending.1 spending.2
          exact excuses _ (running_dos following.running 100 0 "") _ _ _
    case inputs =>
      constructor
      · exact fun _ _ => trivial
      · intro left right next following passed _
        cases fault : inputFault params fZerocoinActive tx with
        | some fault =>
          rw [fault] at passed
          cases passed
        | none =>
          rw [fault] at passed
          cases passed
          exact following
  exact steps.run (neverAccepts_checkTransactionStages _ _ _ _ _) following accepts trivial

theorem addBlockSerials_of_passes
    {serials seen : List CBigNum}
    {right next : CheckState}
    (passes : addBlockSerials lib txins serials right = ((none, next), seen))
    (left : CheckState) :
    next = right ∧ addBlockSerials lib txins serials left = ((none, left), seen) := by
  induction txins generalizing serials with
  | nil =>
    cases passes
    exact ⟨rfl, rfl⟩
  | cons txin rest ih =>
    unfold addBlockSerials at passes ⊢
    cases decoded : lib.txInToZerocoinSpend txin with
    | none =>
      rw [decoded] at passes
      cases passes
    | some spend =>
      rw [decoded] at passes
      dsimp only at passes ⊢
      split_ifs at passes ⊢ with repeated
      · cases passes
      · exact ih passes

theorem follows_checkTransactions
    {node other : NodeLocal}
    {txs : List CTransaction}
    (mints : fZerocoinActive = true → ∀ tx ∈ txs, ∀ txout ∈ tx.vout,
      txout.isZerocoinMint = true → ∀ pubCoin, txOutToPublicCoin txout = some pubCoin →
        minted tx.hash pubCoin.value)
    (verifies : ExcusesRejections excused ∨ (node.fVerifySignature = true →
      fZerocoinActive = true → ∀ tx ∈ txs, tx.isZerocoinSpend = true →
        tx.SpendsVerify context.lib accumulators))
    (serials : List CBigNum) :
    FollowsCheck excused minted accumulators
      (checkTransactions context node fZerocoinActive txs serials)
      (checkTransactions context other fZerocoinActive txs serials) where
  backward := fun _ _ => trivial
  passes := by
    induction txs generalizing serials with
    | nil =>
      intro left right next following passed _
      cases passed
      exact following
    | cons tx rest ih =>
      intro left right next following passed _
      have restFollows := @ih
        (fun active other member => mints active other (List.mem_cons_of_mem _ member))
        (verifies.imp_right fun holds verify active other member =>
          holds verify active other (List.mem_cons_of_mem _ member))
      unfold checkTransactions at passed ⊢
      cases checks : checkTransaction context.params context.lib other.fVerifySignature
          fZerocoinActive tx right with
      | mk exit checked =>
        rw [checks] at passed
        cases exit with
        | accept =>
          have step := @follows_checkTransaction _ _ _ _ _ node.fVerifySignature _ _ _
            (fun active => mints active tx List.mem_cons_self)
            (verifies.imp_right fun holds verify active =>
              holds verify active tx List.mem_cons_self) _ _ _ following checks
          rcases step with ⟨reached, accepts, followingNow⟩ | ⟨failed, rejects, excuse⟩
          · rw [accepts]
            dsimp only at passed ⊢
            cases added : addBlockSerials context.lib
                (if tx.isZerocoinSpend then tx.zerocoinSpendInputs else []) serials
                checked with
            | mk outcome seen =>
              obtain ⟨exit, addedNext⟩ := outcome
              rw [added] at passed
              cases exit with
              | some exit => cases passed
              | none =>
                obtain ⟨rfl, same⟩ := addBlockSerials_of_passes added reached
                rw [same]
                exact restFollows seen followingNow passed trivial
          · rw [rejects]
            exact excuse
        | _ => cases passed

end Loop

/-- `CheckBlock` stops at the header, for a block that may be corrupted. -/
def CBlock.stopsAtHeader (context : ChainContext) (node : NodeLocal) (block : CBlock) :
    Bool :=
  block.missesTarget context.params && !node.fOkToGoFast

theorem checkBlock_of_stopsAtHeader
    (stops : block.stopsAtHeader context node = true)
    (fCheckMerkleRoot : Bool) (checks : CheckState) :
    (checkBlock context node fCheckMerkleRoot block checks).1 = .reject ∧
      (checkBlock context node fCheckMerkleRoot block checks).2.state.corruptionPossible =
        true := by
  obtain ⟨misses, slow⟩ := Bool.and_eq_true_iff.mp stops
  rw [Bool.not_eq_true'] at slow
  unfold checkBlock Stage.run
  rw [Stage.sequence_cons, checkBlockHeaderStage_eq, misses, slow,
    if_neg Bool.true_eq_false.mp, if_neg Bool.false_ne_true]
  refine ⟨rfl, ?_⟩
  unfold Stage.finish CheckState.dosCorrupt CValidationState.dos
  dsimp only
  split_ifs <;> rfl

/-- Otherwise the header stage passes and leaves the database. -/
theorem checkBlockHeaderStage_of_not_stopsAtHeader
    (goesOn : block.stopsAtHeader context node = false)
    (running : checks.state.mode ≠ .error) :
    ∃ checked, checkBlockHeaderStage context node block checks = (none, checked) ∧
      checked.state.mode ≠ .error ∧ checked.zerocoinDB = checks.zerocoinDB := by
  unfold CBlock.stopsAtHeader at goesOn
  rw [checkBlockHeaderStage_eq]
  cases misses : block.missesTarget context.params with
  | false => exact ⟨checks, rfl, running, rfl⟩
  | true =>
    rw [misses, Bool.true_and, Bool.not_eq_false'] at goesOn
    rw [goesOn]
    exact ⟨_, rfl, running_dos running 50 rejectInvalid "high-hash", rfl⟩

section Block

/-- After the header, a node passes what another one passes, unless it has an objection of
its own and rejections are excused. -/
theorem follows_checkBlockStages
    (own : ExcusesRejections excused ∨ PassesLocalChecks context node block db) :
    FollowsCheck excused block.Mints db.accumulators
      (Stage.sequence (checkBlockStages context node fCheckMerkleRoot block))
      (Stage.sequence (checkBlockStages context other fCheckMerkleRoot block)) := by
  apply Stage.follows_sequence
  unfold checkBlockStages checkBlockTests
  simp only [List.cons_append, List.nil_append, List.forall₂_cons, List.Forall₂.nil, and_true]
  refine ⟨?time, follows_sameTest, follows_sameTest, follows_sameTest, follows_sameTest,
    follows_sameTest, follows_sameTest, follows_sameTest, follows_sameTest, ?locks,
    ?transactions, follows_sameTest⟩
  case time =>
    apply Stage.follows_rejectIf
    intro left _ following _ _
    rcases own with excuses | own
    · exact Or.inr (excuses left following.running _ _ _)
    · left
      have onTime := own.onTime
      simp only [decide_eq_false_iff_not]
      omega
  case locks =>
    apply Stage.follows_rejectIf
    intro left _ following _ _
    rcases own with excuses | own
    · right
      exact excuses (left.insertRejectedBlock block.hash node.time) following.running _ _ _
    · left
      cases filtering : node.isSporkActive .swiftTxBlockFiltering with
      | false => rfl
      | true =>
        rw [Bool.true_and, List.any_eq_false]
        intro tx inBlock
        rw [own.unlocked filtering tx inBlock]
        exact Bool.false_ne_true
  case transactions =>
    apply follows_checkTransactions
    · intro active tx inBlock txout output mint pubCoin read
      exact ⟨active, tx, inBlock, rfl, txout, output, mint, pubCoin, read, rfl⟩
    · exact own.imp_right PassesLocalChecks.verifies

/-- What another node passes, a node with no objection of its own passes as well, unless
it stops at the header.  With an objection it rejects the block with an excuse. -/
theorem follows_checkBlock
    (running : left.state.mode ≠ .error)
    (goesOn : block.stopsAtHeader context node = false)
    (own : ExcusesRejections excused ∨ PassesLocalChecks context node block left.zerocoinDB)
    (accepts : checkBlock context other fCheckMerkleRoot block right = (.accept, next)) :
    (∃ reached, checkBlock context node fCheckMerkleRoot block left = (.accept, reached) ∧
        reached.state.mode ≠ .error) ∨
      ∃ failed, checkBlock context node fCheckMerkleRoot block left = (.reject, failed) ∧
        excused failed := by
  have passes := Stage.sequence_eq_of_accept
    (neverAccepts_checkBlock context other fCheckMerkleRoot block) accepts
  obtain ⟨headed, _, restPasses⟩ := Stage.sequence_cons_eq_none passes
  obtain ⟨checked, header, stillRunning, kept⟩ :=
    checkBlockHeaderStage_of_not_stopsAtHeader goesOn running
  unfold checkBlock Stage.run
  rw [Stage.sequence_cons, header]
  dsimp only
  have following : Following excused block.Mints left.zerocoinDB.accumulators checked
      headed := by
    refine ⟨stillRunning, own.imp_right fun own hashTx value minter => ?_, by rw [kept]⟩
    rw [kept]
    rcases Option.eq_none_or_eq_some (left.zerocoinDB.mints value) with
      absent | ⟨recorded, held⟩
    · exact Or.inl absent
    · rw [own.mints hashTx value minter recorded held] at held
      exact Or.inr (Or.inl held)
  rcases ((follows_checkBlockStages own).passes following restPasses trivial).cases with
    ⟨reached, leftPasses, followingNow⟩ | ⟨failed, rejects, excuse⟩
  · rw [leftPasses]
    exact Or.inl ⟨reached, rfl, followingNow.running⟩
  · rw [rejects]
    exact Or.inr ⟨failed, rfl, excuse⟩

end Block

theorem spendsVerify_of_checkSpendInputs
    (passes : (checkSpendInputs lib true hashTxOut txins serials nTotalRedeemed
      checks).1.1 = none) :
    ∀ txin ∈ txins, txin.scriptSig.isZerocoinSpend = true →
      ∀ spend, lib.txInToZerocoinSpend txin = some spend →
        ∃ bnAccumulatorValue,
          checks.zerocoinDB.accumulators spend.accChecksum = some bnAccumulatorValue ∧
            lib.verify txin bnAccumulatorValue = true := by
  induction txins generalizing serials nTotalRedeemed with
  | nil => simp
  | cons head rest ih =>
    unfold checkSpendInputs at passes
    intro txin member zerocoin spend decoded
    by_cases ordinary : head.scriptSig.isZerocoinSpend = false
    · rw [if_pos ordinary] at passes
      rcases List.mem_cons.mp member with rfl | inRest
      · rw [ordinary] at zerocoin
        cases zerocoin
      · exact ih passes txin inRest zerocoin spend decoded
    · rw [if_neg ordinary] at passes
      cases headDecoded : lib.txInToZerocoinSpend head with
      | none =>
        rw [headDecoded] at passes
        cases passes
      | some newSpend =>
        rw [headDecoded] at passes
        dsimp only at passes
        split_ifs at passes with unknown denomination foreign unverified repeated
        rcases List.mem_cons.mp member with rfl | inRest
        · rw [decoded] at headDecoded
          cases headDecoded
          rw [Bool.true_and, Bool.not_eq_true', Bool.not_eq_false] at unverified
          cases found : checks.zerocoinDB.accumulators spend.accChecksum with
          | none => simp [found] at unverified
          | some bnAccumulatorValue =>
            exact ⟨bnAccumulatorValue, rfl, by simpa [found] using unverified⟩
        · exact ih passes txin inRest zerocoin spend decoded

/-- A transaction whose proofs do not all verify is not accepted where they are
verified. -/
theorem checkTransaction_ne_accept_of_unverified
    (zerocoin : tx.isZerocoinSpend = true)
    (unverified : ¬tx.SpendsVerify lib accumulators)
    (held : checks.zerocoinDB.accumulators = accumulators) :
    (checkTransaction params lib true true tx checks).1 ≠ .accept := by
  have stage : Stage.when (true && tx.isZerocoinSpend)
        (Stage.require (checkZerocoinSpend lib true tx) (CheckState.dos 100 0 "")) ∈
      checkTransactionStages params lib true true tx := by
    simp [checkTransactionStages]
  have stops : Stage.Stops
      (fun checks : CheckState => checks.zerocoinDB.accumulators = accumulators)
      (Stage.when (true && tx.isZerocoinSpend)
        (Stage.require (checkZerocoinSpend lib true tx) (CheckState.dos 100 0 ""))) := by
    intro reached same passes
    rw [zerocoin, Bool.and_self, Stage.when, if_pos rfl, Stage.require_eq] at passes
    dsimp only at passes
    split_ifs at passes with accepts
    apply unverified
    rw [← same]
    apply spendsVerify_of_checkSpendInputs
    unfold checkZerocoinSpend at accepts
    split_ifs at accepts
    generalize inputs : checkSpendInputs lib true (lib.hashOutputs tx.vout) tx.vin [] 0
      reached = outcome at accepts ⊢
    obtain ⟨⟨exit, next⟩, redeemed⟩ := outcome
    cases exit with
    | some exit => exact absurd accepts (checkSpendInputs_ne_accept inputs)
    | none => rfl
  refine Stage.run_ne_accept
    (neverAccepts_checkTransactionStages params lib true true tx) stage stops ?_ held
  intro other member reached same
  have kept := keepsMints_checkTransactionStages params lib true true tx other member reached
  exact kept.accumulators.trans same

theorem passesLocalChecks_of_accept
    (accepts : (checkBlock context node fCheckMerkleRoot block checks).1 = .accept) :
    PassesLocalChecks context node block checks.zerocoinDB := by
  have passes := Stage.sequence_passes_of_accept
    (neverAccepts_checkBlock context node fCheckMerkleRoot block) accepts
  have tests : ∀ {test : Bool} {onReject : CheckState → CheckState},
      Stage.rejectIf (fun _ => test) onReject ∈
          checkBlockTests context node fCheckMerkleRoot block → test = false := by
    intro test onReject member
    obtain ⟨reached, passed⟩ := Stage.passes_of_mem passes
      (List.mem_cons_of_mem _ (List.mem_append_left _ member))
    exact Stage.test_of_rejectIf (fun _ => test) passed
  have onTime := @tests (node.adjustedTime + (if block.isProofOfStake then 60 else 7200) <
    block.nTime) (CheckState.dos 0 rejectInvalid "time-too-new") (by simp [checkBlockTests])
  have unlocked := @tests (node.isSporkActive .swiftTxBlockFiltering &&
    block.vtx.any (conflictsWithLock node)) (rejectConflict node block)
    (by simp [checkBlockTests])
  constructor
  · simpa using onTime
  · intro filtering tx inBlock
    rw [filtering, Bool.true_and, List.any_eq_false] at unlocked
    simpa using unlocked tx inBlock
  · intro hashTx value mints recorded held
    by_contra other
    exact checkBlock_ne_accept mints held other accepts
  · intro verify active tx inBlock zerocoin
    by_contra unverified
    refine @checkBlock_ne_accept_of_refused context node fCheckMerkleRoot block
      (fun reached => reached.zerocoinDB.accumulators = checks.zerocoinDB.accumulators) tx
      checks ?_ inBlock ?_ rfl accepts
    · exact fun _ _ kept same => kept.accumulators.trans same
    · intro reached same
      rw [verify, active]
      exact checkTransaction_ne_accept_of_unverified zerocoin unverified same

end ColossusCoin
